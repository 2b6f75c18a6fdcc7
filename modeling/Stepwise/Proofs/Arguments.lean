import Stepwise.Proofs.Nesting
import Stepwise.Solve.Question

/-!
# The arguments of a call

A canonical text has round brackets only, and its calls are read by counting them (`depthStep`). A
call of some arguments is read back as these arguments if each of them closes what it opens and has
no comma outside brackets (`Balanced`, `NoBareComma`). What is well nested with all kinds of brackets
is balanced once all of them are round.

Results: `callArguments_callText`, and `balanced_of_marks` and `noBareComma_of_marks`, by which
well-nested texts are such arguments.
-/

namespace Stepwise.Bracket

open Text Phrase

/-! ## Counting round brackets -/

/-- The number of open round brackets after a character, unless it closes what is not open. -/
def depthStep (depth : Nat) (c : Char) : Option Nat :=
  if c = '(' then some (depth + 1)
  else if c = ')' then
    match depth with
    | 0 => none
    | depth + 1 => some depth
  else some depth

/-- The number of open round brackets after a text. -/
def depthAfter (depth : Nat) (t : Text) : Option Nat := t.foldlM depthStep depth

/-- The text closes the round brackets that it opens, and no others. -/
def Balanced (t : Text) : Prop := depthAfter 0 t = some 0

/-- No comma stands outside the round brackets of the text. -/
def NoBareComma (t : Text) : Prop := ∀ s r, t = s ++ ',' :: r → ¬Balanced s

variable {c : Char} {m n : Nat} {a b s t : Text} {awaited awaited' : Text} {args names : List Text}

/-- What a character can do: open a round bracket, close one, or neither. -/
theorem depthStep_cases (h : depthStep n c = some m) :
    (c = '(' ∧ m = n + 1) ∨ (c = ')' ∧ n = m + 1) ∨ (c ≠ '(' ∧ c ≠ ')' ∧ m = n) := by
  unfold depthStep at h
  split at h
  next hc => exact .inl ⟨hc, (Option.some.inj h).symm⟩
  next ho =>
    split at h
    next hc =>
      cases n with
      | zero => exact absurd h (by simp)
      | succ n => exact .inr (.inl ⟨hc, congrArg (· + 1) (Option.some.inj h)⟩)
    next hc => exact .inr (.inr ⟨ho, hc, (Option.some.inj h).symm⟩)

theorem depthStep_other (ho : c ≠ '(') (hc : c ≠ ')') (n : Nat) : depthStep n c = some n := by
  unfold depthStep
  rw [if_neg ho, if_neg hc]

theorem depthAfter_cons (n : Nat) (c : Char) (t : Text) :
    depthAfter n (c :: t) = (depthStep n c).bind fun n => depthAfter n t := rfl

theorem depthAfter_append (n : Nat) (s t : Text) :
    depthAfter n (s ++ t) = (depthAfter n s).bind fun n => depthAfter n t := by
  unfold depthAfter
  rw [List.foldlM_append]
  rfl

theorem depthAfter_cons_eq_some :
    depthAfter n (c :: t) = some m ↔ ∃ k, depthStep n c = some k ∧ depthAfter k t = some m := by
  rw [depthAfter_cons, Option.bind_eq_some_iff]

theorem Balanced.append (hs : Balanced s) (ht : Balanced t) : Balanced (s ++ t) := by
  rw [Balanced, depthAfter_append, hs]
  exact ht

/-- What stands in front of the bracket that closes is what the text before it keeps in balance. -/
theorem enclosed_append (r : Text) : ∀ {t : Text} {n}, depthAfter n t = some m →
    enclosed n (t ++ r) = (enclosed m r).map (t ++ ·)
  | [], n, h => by
    obtain rfl := Option.some.inj h
    simp
  | c :: cs, n, h => by
    obtain ⟨k, hk, h⟩ := depthAfter_cons_eq_some.mp h
    have ih := enclosed_append r h
    have hcons : ∀ o : Option Text, (o.map (cs ++ ·)).map (c :: ·) = o.map (c :: cs ++ ·) := by
      intro o
      cases o <;> rfl
    rw [List.cons_append, ← hcons, ← ih]
    rcases depthStep_cases hk with ⟨rfl, rfl⟩ | ⟨rfl, rfl⟩ | ⟨ho, hc, rfl⟩
    · simp [enclosed]
    · simp [enclosed]
    · rw [enclosed.eq_def]
      simp [ho, hc]

theorem pieces_ne_nil : ∀ (t : Text) (n : Int), pieces n t ≠ []
  | [], _ => List.cons_ne_nil _ _
  | c :: cs, n => by
    rw [pieces]
    generalize (if c = '(' then n + 1 else if c = ')' then n - 1 else n) = k
    split
    · exact List.cons_ne_nil _ _
    · split <;> exact List.cons_ne_nil _ _

/-- A comma outside brackets begins a new piece. -/
theorem pieces_comma (t : Text) : pieces 0 (',' :: t) = [] :: pieces 0 t := by
  simp [pieces]

/-- Other characters belong to the first piece. -/
theorem pieces_cons (hk : depthStep n c = some m) (hc : c = ',' → n ≠ 0) (t : Text) :
    pieces n (c :: t) = (pieces m t).modifyHead (c :: ·) := by
  have hdepth : (if c = '(' then (n : Int) + 1 else if c = ')' then (n : Int) - 1 else n) = m := by
    rcases depthStep_cases hk with ⟨rfl, rfl⟩ | ⟨rfl, rfl⟩ | ⟨ho, hb, rfl⟩
    · rw [if_pos rfl, Int.natCast_succ]
    · rw [if_neg (by decide), if_pos rfl, Int.natCast_succ, Int.add_sub_cancel]
    · rw [if_neg ho, if_neg hb]
  have hcomma : ¬(c = ',' ∧ (m : Int) = 0) := by
    rintro ⟨rfl, hm⟩
    obtain rfl : m = n := Option.some.inj hk.symm
    exact hc rfl (Int.ofNat_eq_zero.mp hm)
  rw [pieces]
  simp only [hdepth, if_neg hcomma]
  cases hp : pieces m t with
  | nil => exact absurd hp (pieces_ne_nil _ _)
  | cons p ps => rfl

/-- A text without a comma outside brackets belongs to the first piece. -/
theorem pieces_append (r : Text) : ∀ {t : Text} {n}, depthAfter n t = some m →
    (∀ u v, t = u ++ ',' :: v → depthAfter n u ≠ some 0) →
      pieces n (t ++ r) = (pieces m r).modifyHead (t ++ ·)
  | [], n, h, _ => by
    obtain rfl := Option.some.inj h
    rw [List.nil_append]
    cases hp : pieces n r with
    | nil => exact absurd hp (pieces_ne_nil _ _)
    | cons p ps => rfl
  | c :: cs, n, h, hc => by
    obtain ⟨k, hk, h⟩ := depthAfter_cons_eq_some.mp h
    have hout : c = ',' → n ≠ 0 := by
      rintro rfl rfl
      exact hc [] cs rfl rfl
    have ih := pieces_append r h fun u v he hu =>
      hc (c :: u) v (congrArg (c :: ·) he) (depthAfter_cons_eq_some.mpr ⟨k, hk, hu⟩)
    rw [List.cons_append, pieces_cons hk hout, ih]
    cases hp : pieces m r with
    | nil => exact absurd hp (pieces_ne_nil _ _)
    | cons p ps => rfl

/-- What is joined by commas is cut at the commas. -/
theorem pieces_joinWith : ∀ {args : List Text}, args ≠ [] → (∀ a ∈ args, Balanced a) →
    (∀ a ∈ args, NoBareComma a) → pieces 0 (joinWith [','] args) = args
  | [a], _, hb, hc => by
    have h := pieces_append [] (hb a List.mem_cons_self) (hc a List.mem_cons_self)
    rw [List.append_nil] at h
    exact h.trans (congrArg (fun x => [x]) (List.append_nil a))
  | a :: b :: rest, _, hb, hc => by
    have ih := pieces_joinWith (List.cons_ne_nil b rest)
      (fun x hx => hb x (List.mem_cons_of_mem _ hx)) (fun x hx => hc x (List.mem_cons_of_mem _ hx))
    have h := pieces_append (',' :: joinWith [','] (b :: rest)) (hb a List.mem_cons_self)
      (hc a List.mem_cons_self)
    have hj : joinWith [','] (a :: b :: rest) = a ++ ',' :: joinWith [','] (b :: rest) := by
      simp [joinWith]
    rw [hj]
    refine h.trans ?_
    rw [Int.natCast_zero, pieces_comma, ih]
    exact congrArg (· :: b :: rest) (List.append_nil a)

theorem balanced_joinWith : ∀ {args : List Text}, (∀ a ∈ args, Balanced a) →
    Balanced (joinWith [','] args)
  | [], _ => rfl
  | [a], hb => hb a List.mem_cons_self
  | a :: _ :: _, hb =>
    have ih := balanced_joinWith fun x hx => hb x (List.mem_cons_of_mem a hx)
    ((hb a List.mem_cons_self).append (rfl : Balanced [','])).append ih

/-! ## Calls -/

/-- The call at the front of a text is the first one. -/
theorem firstCall?_of_head (hh : names.head? = some s) (hn : s ≠ []) (r : Text) :
    firstCall? names false (s ++ '(' :: r) = some r := by
  obtain ⟨rest, rfl⟩ := List.head?_eq_some_iff.mp hh
  obtain ⟨c, cs, rfl⟩ := List.exists_cons_of_ne_nil hn
  have hpre : ((c :: cs) ++ ['(']).isPrefixOf ((c :: cs) ++ '(' :: r) = true := by
    rw [List.isPrefixOf_iff_prefix]
    exact ⟨r, by simp⟩
  have hdrop : ((c :: cs) ++ '(' :: r).drop ((c :: cs).length + 1) = r := by
    have : (c :: cs) ++ '(' :: r = ((c :: cs) ++ ['(']) ++ r := by simp
    rw [this, List.drop_left' (by simp)]
  have hcall : callHead? ((c :: cs) :: rest) ((c :: cs) ++ '(' :: r) = some r := by
    rw [callHead?, List.findSome?_cons, if_pos hpre, hdrop]
  rw [List.cons_append] at hcall ⊢
  rw [firstCall?]
  simp only [Bool.false_eq_true, if_false, hcall]

/-- If the arguments and a closing bracket follow the first call, they are read back. -/
theorem callArguments_of_firstCall? {r : Text}
    (hfirst : firstCall? names false t = some (joinWith [','] args ++ ')' :: r)) (hn : args ≠ [])
    (hb : ∀ a ∈ args, Balanced a) (hc : ∀ a ∈ args, NoBareComma a) :
    callArguments names t = some (args.map trim) := by
  have henc : enclosed 0 (joinWith [','] args ++ ')' :: r) = some (joinWith [','] args) := by
    refine (enclosed_append (')' :: r) (balanced_joinWith hb)).trans ?_
    exact congrArg some (List.append_nil _)
  simp only [callArguments, hfirst, henc, Option.bind_eq_bind, Option.bind_some, splitArguments,
    pieces_joinWith hn hb hc]
  rfl

/-- **The arguments of a call are read back.** -/
theorem callArguments_callText (hh : names.head? = some s) (hs : s ≠ []) (hn : args ≠ [])
    (hb : ∀ a ∈ args, Balanced a) (hc : ∀ a ∈ args, NoBareComma a) :
    callArguments names (callText s args) = some (args.map trim) := by
  have hcall : callText s args = s ++ '(' :: (joinWith [','] args ++ [')']) := by
    simp [callText]
  rw [hcall]
  exact callArguments_of_firstCall? (firstCall?_of_head hh hs _) hn hb hc

/-! ## Well-nested texts with round brackets -/

theorem depthAfter_marks (t : Text) (n : Nat) : depthAfter n (marks t) = depthAfter n t := by
  induction t generalizing n with
  | nil => rfl
  | cons c cs ih =>
    cases hc : isMark c with
    | true =>
      rw [marks, List.filter_cons_of_pos hc, depthAfter_cons, depthAfter_cons]
      exact congrArg _ (funext fun k => ih k)
    | false =>
      have ho : c ≠ '(' := by
        rintro rfl
        exact absurd hc (by decide)
      have hcl : c ≠ ')' := by
        rintro rfl
        exact absurd hc (by decide)
      rw [marks, List.filter_cons_of_neg (by rw [hc]; decide), depthAfter_cons,
        depthStep_other ho hcl, Option.bind_some]
      exact ih n

/-- As many round brackets are open as closing brackets of any kind are awaited. -/
theorem depthStep_roundBracket (h : await awaited c = some awaited') :
    depthStep awaited.length (roundBracket c) = some awaited'.length := by
  rcases await_cases h with ⟨d, hd, rfl⟩ | ⟨hb, rfl⟩ | ⟨hc, hb, rfl⟩
  · rcases closer?_cases hd with ⟨rfl, -⟩ | ⟨rfl, -⟩ | ⟨rfl, -⟩ <;> rfl
  · have hround : roundBracket c = ')' := by
      simp only [isCloser, Bool.or_eq_true, beq_iff_eq] at hb
      rcases hb with (rfl | rfl) | rfl <;> rfl
    rw [hround]
    rfl
  · have hself : roundBracket c = c := by
      have ho : ¬(c = '[' ∨ c = '\x7b') := by
        rintro (rfl | rfl) <;> exact absurd hc (by decide)
      have hcl : ¬(c = ']' ∨ c = '\x7d') := by
        rintro (rfl | rfl) <;> exact absurd hb (by decide)
      rw [roundBracket, if_neg ho, if_neg hcl]
    have ho : c ≠ '(' := by
      rintro rfl
      exact absurd hc (by decide)
    have hcl : c ≠ ')' := by
      rintro rfl
      exact absurd hb (by decide)
    rw [hself, depthStep_other ho hcl]

theorem depthAfter_map_roundBracket : ∀ {t awaited : Text}, awaitAll awaited t = some awaited' →
    depthAfter awaited.length (t.map roundBracket) = some awaited'.length
  | [], awaited, h => by
    obtain rfl := Option.some.inj h
    rfl
  | c :: cs, awaited, h => by
    obtain ⟨a, ha, h⟩ := awaitAll_cons_eq_some.mp h
    exact depthAfter_cons_eq_some.mpr
      ⟨a.length, depthStep_roundBracket ha, depthAfter_map_roundBracket h⟩

theorem balanced_of_marks (ht : WellNested t) (h : marks s = (marks t).map roundBracket) :
    Balanced s := by
  have hw : awaitAll [] (marks t) = some [] := (awaitAll_marks t []).trans ht
  rw [Balanced, ← depthAfter_marks, h]
  exact depthAfter_map_roundBracket hw

theorem noBareComma_of_marks (ht : WellNested t) (hc : NoOuterComma t)
    (h : marks s = (marks t).map roundBracket) : NoBareComma s := by
  rintro u r rfl hu
  have hsplit : (marks t).map roundBracket = marks u ++ ',' :: marks r := by
    rw [← h, marks, List.filter_append]
    exact congrArg _ (List.filter_cons_of_pos (by decide))
  obtain ⟨u', v, hm, hu', hv⟩ := List.map_eq_append_iff.mp hsplit
  obtain ⟨d, r', rfl, hd, -⟩ := List.map_eq_cons_iff.mp hv
  have hd : d = ',' := by
    unfold roundBracket at hd
    split at hd
    · exact absurd hd (by decide)
    · split at hd
      · exact absurd hd (by decide)
      · exact hd
  subst hd
  -- The brackets that are awaited at the comma are those that are open there.
  have hidem : marks (marks t) = marks t := by
    rw [marks, marks, List.filter_filter]
    simp
  have hw : awaitAll [] (u' ++ ',' :: r') = some [] := by
    rw [← hm, awaitAll_marks]
    exact ht
  rw [awaitAll_append, Option.bind_eq_some_iff] at hw
  obtain ⟨a, ha, -⟩ := hw
  have hdepth : depthAfter 0 (marks u) = some a.length := by
    rw [← hu']
    exact depthAfter_map_roundBracket ha
  rw [depthAfter_marks, hu] at hdepth
  have hnil : a = [] := List.length_eq_zero_iff.mp (Option.some.inj hdepth).symm
  exact hc.of_marks hidem u' r' hm (by rw [WellNested, ha, hnil])

end Stepwise.Bracket
