import Stepwise.Proofs.Lawful
import Stepwise.Proofs.Squeeze

/-!
# Well-nested texts

A text is read from the left, and the closing brackets that are still awaited are kept on a stack
(`await`). It is well nested if every bracket that closes is the one awaited, and none is awaited at
the end. Only brackets and commas matter (`marks`), so that nothing depends on blanks.

Results: `cutAtClosing_of_wellNested`, the bracket around a well-nested text is closed right behind it,
although only brackets of one kind are counted; `awaitAll_split`, a bracket that is open is closed
somewhere; and `WellNested.of_marks`.
-/

namespace Stepwise.Bracket

open Text

/-! ## Brackets that are awaited -/

/-- Is this a closing bracket? -/
def isCloser (c : Char) : Bool := c == ')' || c == ']' || c == '\x7d'

/-- The closing brackets that are awaited after a character, innermost first. There are none if the
character closes what is not open. -/
def await (awaited : Text) (c : Char) : Option Text :=
  match closer? c with
  | some d => some (d :: awaited)
  | none =>
    if isCloser c then
      match awaited with
      | d :: ds => if c = d then some ds else none
      | [] => none
    else some awaited

/-- The closing brackets that are awaited after a text. -/
def awaitAll (awaited t : Text) : Option Text := t.foldlM await awaited

/-- Every bracket is closed by one of its kind, and closes one. -/
def WellNested (t : Text) : Prop := awaitAll [] t = some []

instance (t : Text) : Decidable (WellNested t) := inferInstanceAs (Decidable (_ = _))

/-- No comma stands outside brackets: what comes before one is not complete. -/
def NoOuterComma (t : Text) : Prop := ∀ s r, t = s ++ ',' :: r → ¬WellNested s

instance (t : Text) : Decidable (NoOuterComma t) :=
  decidable_of_iff (∀ i < t.length, t[i]? = some ',' → ¬WellNested (t.take i)) <| by
    constructor
    · rintro h s r rfl
      have := h s.length (by simp) (by simp)
      rwa [List.take_left] at this
    · intro h i hi hc
      refine h (t.take i) (t.drop (i + 1)) ?_
      obtain ⟨_, hc⟩ := List.getElem?_eq_some_iff.mp hc
      rw [← hc, ← List.drop_eq_getElem_cons, List.take_append_drop]

variable {c d opener closer : Char} {awaited awaited' s t body : Text}

theorem closer?_cases (h : closer? c = some d) :
    (c = '(' ∧ d = ')') ∨ (c = '[' ∧ d = ']') ∨ (c = '\x7b' ∧ d = '\x7d') := by
  unfold closer? at h
  split at h
  · exact .inl ⟨rfl, (Option.some.inj h).symm⟩
  · exact .inr (.inl ⟨rfl, (Option.some.inj h).symm⟩)
  · exact .inr (.inr ⟨rfl, (Option.some.inj h).symm⟩)
  · exact absurd h (by simp)

theorem isCloser_of_closer? (h : closer? c = some d) : isCloser d = true := by
  rcases closer?_cases h with ⟨rfl, rfl⟩ | ⟨rfl, rfl⟩ | ⟨rfl, rfl⟩ <;> decide

theorem not_isCloser_of_closer? (h : closer? c = some d) : isCloser c = false := by
  rcases closer?_cases h with ⟨rfl, rfl⟩ | ⟨rfl, rfl⟩ | ⟨rfl, rfl⟩ <;> decide

theorem closer?_of_isCloser (h : isCloser c = true) : closer? c = none := by
  cases he : closer? c with
  | none => rfl
  | some d => exact absurd h (by rw [not_isCloser_of_closer? he]; decide)

theorem ne_closer (h : closer? opener = some closer) : closer ≠ opener := by
  rintro rfl
  exact absurd (isCloser_of_closer? h) (by rw [not_isCloser_of_closer? h]; decide)

theorem closer?_inj {c' : Char} (h : closer? c = some d) (h' : closer? c' = some d) : c = c' := by
  rcases closer?_cases h with ⟨rfl, rfl⟩ | ⟨rfl, rfl⟩ | ⟨rfl, rfl⟩ <;>
    rcases closer?_cases h' with ⟨rfl, hd⟩ | ⟨rfl, hd⟩ | ⟨rfl, hd⟩ <;>
    first | rfl | exact absurd hd (by decide)

/-- What a character can do: open a bracket, close the innermost one, or neither. -/
theorem await_cases (h : await awaited c = some awaited') :
    (∃ d, closer? c = some d ∧ awaited' = d :: awaited) ∨
      (isCloser c = true ∧ awaited = c :: awaited') ∨
      (closer? c = none ∧ isCloser c = false ∧ awaited' = awaited) := by
  unfold await at h
  cases hc : closer? c with
  | some d =>
    rw [hc] at h
    exact .inl ⟨d, rfl, (Option.some.inj h).symm⟩
  | none =>
    rw [hc] at h
    cases hb : isCloser c with
    | false =>
      rw [hb] at h
      exact .inr (.inr ⟨rfl, rfl, (Option.some.inj h).symm⟩)
    | true =>
      rw [hb] at h
      cases awaited with
      | nil => exact absurd h (by simp)
      | cons d ds =>
        by_cases hd : c = d
        · subst hd
          have h : ds = awaited' := by simpa using h
          exact .inr (.inl ⟨rfl, by rw [h]⟩)
        · exact absurd h (by simp [hd])

theorem await_opener (h : closer? c = some d) (awaited : Text) :
    await awaited c = some (d :: awaited) := by
  simp [await, h]

theorem await_closer (h : isCloser c = true) (awaited : Text) :
    await (c :: awaited) c = some awaited := by
  simp [await, closer?_of_isCloser h, h]

theorem await_other (h : closer? c = none) (h' : isCloser c = false) (awaited : Text) :
    await awaited c = some awaited := by
  simp [await, h, h']

theorem awaitAll_cons (awaited : Text) (c : Char) (t : Text) :
    awaitAll awaited (c :: t) = (await awaited c).bind fun a => awaitAll a t := rfl

theorem awaitAll_append (awaited s t : Text) :
    awaitAll awaited (s ++ t) = (awaitAll awaited s).bind fun a => awaitAll a t := by
  unfold awaitAll
  rw [List.foldlM_append]
  rfl

theorem awaitAll_cons_eq_some :
    awaitAll awaited (c :: t) = some awaited' ↔
      ∃ a, await awaited c = some a ∧ awaitAll a t = some awaited' := by
  rw [awaitAll_cons, Option.bind_eq_some_iff]

/-! ## Closing brackets -/

/-- Brackets of one kind are counted as they are awaited. -/
theorem closingFrom_awaitAll (hc : closer? opener = some closer) (r : Text) :
    ∀ {t awaited}, awaitAll awaited t = some awaited' →
      closingFrom opener closer (awaited.count closer + 1) (t ++ r) =
        (closingFrom opener closer (awaited'.count closer + 1) r).map (t.length + ·)
  | [], awaited, h => by
    obtain rfl := Option.some.inj h
    simp
  | c :: cs, awaited, h => by
    obtain ⟨a, ha, h⟩ := awaitAll_cons_eq_some.mp h
    have ih := closingFrom_awaitAll hc r h
    have hlen : ∀ o : Option Nat, (o.map (cs.length + ·)).map (· + 1) =
        o.map ((c :: cs).length + ·) := by
      intro o
      cases o <;> simp only [Option.map_none, Option.map_some, List.length_cons, Option.some.injEq]
      omega
    rw [List.cons_append, closingFrom]
    rcases await_cases ha with ⟨d, hd, rfl⟩ | ⟨hb, rfl⟩ | ⟨hd, hb, rfl⟩
    · by_cases ho : c = opener
      · subst ho
        obtain rfl := Option.some.inj (hd.symm.trans hc)
        rw [if_pos rfl, ← hlen, ← ih, List.count_cons_self]
      · have hcc : c ≠ closer := by
          rintro rfl
          exact absurd (isCloser_of_closer? hc) (by rw [not_isCloser_of_closer? hd]; decide)
        have hdc : d ≠ closer := by
          rintro rfl
          exact ho (closer?_inj hd hc)
        rw [if_neg ho, if_neg hcc, ← hlen, ← ih, List.count_cons_of_ne hdc]
    · have ho : c ≠ opener := by
        rintro rfl
        exact absurd hb (by rw [not_isCloser_of_closer? hc]; decide)
      by_cases hcc : c = closer
      · subst hcc
        rw [if_neg ho, if_pos rfl, if_neg (by rw [List.count_cons_self]; omega), ← hlen, ← ih,
          List.count_cons_self, Nat.add_sub_cancel]
      · rw [if_neg ho, if_neg hcc, ← hlen, ← ih, List.count_cons_of_ne hcc]
    · have ho : c ≠ opener := by
        rintro rfl
        exact absurd (hd.symm.trans hc) (by simp)
      have hcc : c ≠ closer := by
        rintro rfl
        exact absurd (isCloser_of_closer? hc) (by rw [hb]; decide)
      rw [if_neg ho, if_neg hcc, ← hlen, ← ih]

/-- **The bracket around a well-nested text is closed right behind it.** -/
theorem cutAtClosing_of_wellNested (hc : closer? opener = some closer) (hb : WellNested body) (r : Text) :
    Phrase.cutAtClosing opener (body ++ closer :: r) = some (body, r) := by
  have hj : closingFrom opener closer 1 (body ++ closer :: r) = some body.length := by
    refine (closingFrom_awaitAll hc (closer :: r) hb).trans ?_
    rw [closingFrom, if_neg (ne_closer hc), if_pos rfl]
    rfl
  simp only [Phrase.cutAtClosing, hc, hj, Option.bind_eq_bind, Option.bind_some, List.take_left]
  have hd : (body ++ closer :: r).drop (body.length + 1) = r := by
    have : body ++ closer :: r = (body ++ [closer]) ++ r := by simp
    rw [this, List.drop_left' (by simp)]
  rw [hd]
  rfl

/-- A bracket that is awaited comes, with a well-nested text in front of it. -/
theorem awaitAll_split : ∀ {t inner : Text}, awaitAll (inner ++ d :: awaited) t = some [] →
    ∃ body r, t = body ++ d :: r ∧ awaitAll inner body = some [] ∧ awaitAll awaited r = some []
  | [], inner, h => absurd (Option.some.inj h) (by simp)
  | c :: cs, inner, h => by
    obtain ⟨a, ha, h⟩ := awaitAll_cons_eq_some.mp h
    have later : ∀ {i}, a = i ++ d :: awaited → await inner c = some i →
        ∃ body r, c :: cs = body ++ d :: r ∧ awaitAll inner body = some [] ∧
          awaitAll awaited r = some [] := by
      rintro i rfl hi
      obtain ⟨body, r, rfl, hbody, hr⟩ := awaitAll_split h
      exact ⟨c :: body, r, rfl, awaitAll_cons_eq_some.mpr ⟨i, hi, hbody⟩, hr⟩
    rcases await_cases ha with ⟨e, he, rfl⟩ | ⟨hb, hs⟩ | ⟨he, hb, rfl⟩
    · exact later (i := e :: inner) rfl (await_opener he inner)
    · cases inner with
      | nil =>
        obtain ⟨rfl, rfl⟩ := List.cons.inj hs
        exact ⟨[], cs, rfl, rfl, h⟩
      | cons e inner =>
        obtain ⟨rfl, rfl⟩ := List.cons.inj hs
        exact later rfl (await_closer hb inner)
    · exact later rfl (await_other he hb inner)

/-! ## Brackets and commas are all that matters -/

/-- Is this a bracket or a comma? -/
def isMark (c : Char) : Bool := (closer? c).isSome || isCloser c || c == ','

/-- The brackets and commas of a text. -/
def marks (t : Text) : Text := t.filter isMark

theorem awaitAll_marks (t awaited : Text) : awaitAll awaited (marks t) = awaitAll awaited t := by
  induction t generalizing awaited with
  | nil => rfl
  | cons c cs ih =>
    cases hc : isMark c with
    | true =>
      rw [marks, List.filter_cons_of_pos hc, awaitAll_cons, awaitAll_cons]
      exact congrArg _ (funext fun a => ih a)
    | false =>
      have ho : closer? c = none ∧ isCloser c = false := by
        simp only [isMark, Bool.or_eq_false_iff, Option.isSome_eq_false_iff,
          Option.isNone_iff_eq_none] at hc
        exact hc.1
      rw [marks, List.filter_cons_of_neg (by rw [hc]; decide), awaitAll_cons,
        await_other ho.1 ho.2, Option.bind_some]
      exact ih awaited

theorem WellNested.of_marks (h : WellNested s) (he : marks t = marks s) : WellNested t := by
  rw [WellNested, ← awaitAll_marks, he, awaitAll_marks]
  exact h

theorem NoOuterComma.of_marks (h : NoOuterComma s) (he : marks t = marks s) : NoOuterComma t := by
  rintro u r rfl hu
  have hsplit : marks s = marks u ++ ',' :: marks r := by
    rw [← he, marks, List.filter_append]
    exact congrArg _ (List.filter_cons_of_pos (by decide))
  obtain ⟨u', r', rfl, hu', hr'⟩ := List.filter_eq_append_iff.mp hsplit
  obtain ⟨a, b, rfl, ha, -, -⟩ := List.filter_eq_cons_iff.mp hr'
  refine h (u' ++ a) b (by simp) (hu.of_marks ?_)
  have hnil : a.filter isMark = [] := List.filter_eq_nil_iff.mpr ha
  rw [marks, List.filter_append, hnil, List.append_nil, hu']

theorem marks_removeBlanks (t : Text) : marks (removeBlanks t) = marks t := by
  have blank : ∀ {c}, isMark c = true → isBlank c = false := by
    intro c hc
    cases hb : isBlank c with
    | false => rfl
    | true =>
      have := isBlank_induction (p := fun c => isMark c = false) (by decide) hb
      rw [hc] at this
      exact Bool.noConfusion this
  rw [marks, removeBlanks, List.filter_filter]
  refine List.filter_congr fun c _ => ?_
  cases hc : isMark c with
  | false => rfl
  | true => simp [blank hc]

theorem marks_squeeze (t : Text) : marks (squeeze t) = marks t := by
  rw [← marks_removeBlanks, removeBlanks_squeeze, marks_removeBlanks]

theorem marks_trim (t : Text) : marks (trim t) = marks t := by
  rw [← marks_removeBlanks, removeBlanks_trim, marks_removeBlanks]

/-- A text that can be the argument of a call: well nested, and in one piece. -/
structure Argument (t : Text) : Prop where
  wellNested : WellNested t
  noOuterComma : NoOuterComma t

theorem Argument.of_marks (h : Argument s) (he : marks t = marks s) : Argument t :=
  ⟨h.wellNested.of_marks he, h.noOuterComma.of_marks he⟩

theorem Argument.squeeze (h : Argument t) : Argument (squeeze t) := h.of_marks (marks_squeeze t)

theorem Argument.trim (h : Argument t) : Argument (trim t) := h.of_marks (marks_trim t)

end Stepwise.Bracket
