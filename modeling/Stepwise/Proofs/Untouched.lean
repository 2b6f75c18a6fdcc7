import Stepwise.Proofs.Matching

/-!
# What the rewriting of operators leaves alone

The operators `d/dV` with brackets become calls, and nothing else of a text is touched. The text is
cut into parts: an operator with its brackets, up to the bracket that `closing` finds, becomes a call
of its body and its variable, and all between is copied. At the first operator whose bracket is never
closed the rewriting stops, and the rest of the text is copied.

An operator in the brackets of another one does not count, whether it is closed or not: the brackets
are not looked into. `d/dx[d/dy(]` becomes `diff(d/dy(,x)`, although the bracket of `d/dy(` is never
closed.

Results: `wrappedDerivatives_parts`, the parts and what becomes of them; and
`wrappedDerivatives_unclosed_in_brackets`, the text behind an operator that is not closed changes.
-/

namespace Stepwise.Phrase

open Text Pattern Stepwise.Bracket

variable {opener closer x : Char} {i j n p : Nat} {r rest s u : Text}

/-! ## Operators and their places -/

/-- At position `p` begins an operator `d/dV`, and the bracket behind it is at position `i`. -/
def OperatorAt (s : Text) (p i : Nat) : Prop :=
  ∃ u x opener r, Operator u x ∧ (closer? opener).isSome = true ∧
    s.drop p = u ++ opener :: r ∧ p + u.length = i

/-- At position `p` begins an operator whose bracket is never closed. -/
def UnclosedAt (s : Text) (p : Nat) : Prop := ∃ i, OperatorAt s p i ∧ closing s i = .ok none

/-- An operator has one bracket. -/
theorem OperatorAt.unique (hi : OperatorAt s p i) (hj : OperatorAt s p j) : i = j := by
  obtain ⟨u, x, o, r, hu, ho, hdrop, rfl⟩ := hi
  obtain ⟨u', x', o', r', hu', ho', hdrop', rfl⟩ := hj
  obtain ⟨rfl, -, -⟩ := append_cons_inj (isKeywordChar_of_opener ho) (isKeywordChar_of_opener ho')
    hu.chars hu'.chars (hdrop.symm.trans hdrop')
  rfl

/-- An operator begins where one is read. -/
theorem operatorAt_iff : (∃ i, OperatorAt s p i) ↔ wrappedHead (s.drop p) ≠ [] := by
  constructor
  · rintro ⟨i, u, x, o, r, hu, ho, hdrop, -⟩ hnil
    have hmem : ((x, o), r) ∈ wrappedHead (s.drop p) := mem_wrappedHead_iff.mpr ⟨u, hu, ho, hdrop⟩
    rw [hnil] at hmem
    exact List.not_mem_nil hmem
  · intro hne
    obtain ⟨⟨⟨x, o⟩, r⟩, hmem⟩ := List.exists_mem_of_ne_nil _ hne
    obtain ⟨u, hu, ho, hdrop⟩ := mem_wrappedHead_iff.mp hmem
    exact ⟨_, u, x, o, r, hu, ho, hdrop, rfl⟩

theorem UnclosedAt.lt_length (h : UnclosedAt s p) : p < s.length := by
  obtain ⟨i, ⟨u, x, o, r, -, -, hdrop, -⟩, -⟩ := h
  refine Nat.lt_of_not_le fun hle => ?_
  rw [List.drop_of_length_le hle] at hdrop
  exact absurd hdrop (by simp)

/-- The bracket behind an operator is closed in what follows it, or not at all. -/
theorem closing_of_drop (hc : closer? opener = some closer) (h : s.drop n = u ++ opener :: r) :
    closing s (n + u.length) =
      .ok ((closingFrom opener closer 1 r).map (· + (n + u.length + 1))) := by
  have hopener : s[n + u.length]? = some opener := by
    rw [← List.getElem?_drop, h]
    simp
  have hrest : s.drop (n + u.length + 1) = r := by
    rw [Nat.add_assoc, ← List.drop_drop, h]
    simp
  rw [closing_eq hc hopener, hrest]

/-! ## Parts -/

/-- A part of a text: one that is copied, or an operator with its brackets. -/
inductive Part where
  | copied (t : Text)
  | operator (u : Text) (x opener : Char) (body : Text) (closer : Char)

namespace Part

/-- The part as it stands in the text. -/
def source : Part → Text
  | copied t => t
  | operator u _ opener body closer => u ++ opener :: (body ++ [closer])

/-- What becomes of the part. -/
def result : Part → Text
  | copied t => t
  | operator _ x _ body _ => callText derivativeName [trim body, lower x]

/-- What the part must be if it begins at position `n` of the text. No operator begins in a part that
is copied, and the bracket of an operator is closed by the one that `closing` finds. -/
def FitsAt (s : Text) (n : Nat) : Part → Prop
  | copied t => ∀ k < t.length, ¬∃ i, OperatorAt s (n + k) i
  | operator u x opener body closer => Operator u x ∧ closer? opener = some closer ∧
      closing s (n + u.length) = .ok (some (n + u.length + 1 + body.length))

end Part

/-- The position is in one of the parts that become calls. -/
def InOperator (ps : List Part) (p : Nat) : Prop :=
  ∃ before u x opener body closer after, ps = before ++ .operator u x opener body closer :: after ∧
    (before.flatMap Part.source).length ≤ p ∧
    p < (before.flatMap Part.source).length + (Part.operator u x opener body closer).source.length

/-- From position `n` on the text is made up of the parts and a rest, each part fits at its place, and
the rest is empty or begins with an operator that is never closed. The rewriting puts its result in the
place of each part. -/
structure PartsFrom (s : Text) (n : Nat) (ps : List Part) (rest : Text) : Prop where
  source : s.drop n = ps.flatMap Part.source ++ rest
  result : wrappedFrom 0 (s.drop n) = ps.flatMap Part.result ++ rest
  fits : ∀ before q after, ps = before ++ q :: after →
    q.FitsAt s (n + (before.flatMap Part.source).length)
  unclosed : rest ≠ [] → UnclosedAt s (n + (ps.flatMap Part.source).length)

/-- A part in front of others. -/
theorem PartsFrom.cons {q : Part} {ps : List Part} (h : PartsFrom s (n + q.source.length) ps rest)
    (hq : q.FitsAt s n) (hsource : s.drop n = q.source ++ s.drop (n + q.source.length))
    (hresult : wrappedFrom 0 (s.drop n) =
      q.result ++ wrappedFrom 0 (s.drop (n + q.source.length))) :
    PartsFrom s n (q :: ps) rest where
  source := by rw [hsource, h.source, List.flatMap_cons, List.append_assoc]
  result := by rw [hresult, h.result, List.flatMap_cons, List.append_assoc]
  fits := by
    intro before q' after heq
    cases before with
    | nil =>
      obtain ⟨rfl, -⟩ := List.cons.inj heq
      exact hq
    | cons b before =>
      obtain ⟨rfl, htail⟩ := List.cons.inj heq
      have hfits := h.fits before q' after htail
      rwa [Nat.add_assoc, ← List.length_append, ← List.flatMap_cons] at hfits
  unclosed := by
    intro hne
    have hrest := h.unclosed hne
    rwa [Nat.add_assoc, ← List.length_append, ← List.flatMap_cons] at hrest

theorem partsFrom_end (h : s.drop n = []) : PartsFrom s n [] [] where
  source := h
  result := by rw [h]; rfl
  fits := fun _ _ _ h => absurd h (by simp)
  unclosed := fun h => absurd rfl h

/-- **An operator that is read is rewritten up to its closing bracket**, or nothing more is. -/
theorem partsFrom_operator (hbest : wrappedHead.best? (s.drop n) = some ((x, opener), r))
    (ih : ∀ m, n < m → ∃ ps rest, PartsFrom s m ps rest) : ∃ ps rest, PartsFrom s n ps rest := by
  obtain ⟨u, hu, hopen, hdrop⟩ := mem_wrappedHead_iff.mp (mem_of_best? hbest)
  obtain ⟨closer, hc⟩ := Option.isSome_iff_exists.mp hopen
  have hclosing := closing_of_drop hc hdrop
  cases hj : closingFrom opener closer 1 r with
  | none =>
    have hcut : cutAtClosing opener r = none := by
      rw [cutAtClosing, hc, Option.bind_eq_bind, Option.bind_some, hj]
      rfl
    obtain ⟨d, ds, rfl, -⟩ := hu.head
    rw [hj] at hclosing
    refine ⟨[], s.drop n, rfl, ?_, fun _ _ _ h => absurd h (by simp), fun _ => ?_⟩
    · rw [hdrop] at hbest ⊢
      exact wrappedFrom_of_unclosed hbest hcut
    · exact ⟨_, ⟨_, x, opener, r, hu, hopen, hdrop, rfl⟩, hclosing⟩
  | some j =>
    have hcut : cutAtClosing opener r = some (r.take j, r.drop (j + 1)) := by
      rw [cutAtClosing, hc, Option.bind_eq_bind, Option.bind_some, hj]
      rfl
    have hlength : (r.take j).length = j :=
      List.length_take_of_le (Nat.le_of_lt (closingFrom_lt hj))
    have hsplit := closingFrom_split hj
    generalize r.take j = body at hcut hlength hsplit
    generalize r.drop (j + 1) = after at hcut hsplit
    subst hsplit
    let q : Part := .operator u x opener body closer
    have hsource : u ++ opener :: (body ++ closer :: after) = q.source ++ after := by
      simp [q, Part.source]
    have hafter : s.drop (n + q.source.length) = after := by
      rw [← List.drop_drop, hdrop, hsource, List.drop_left]
    have hpos : 0 < q.source.length := by
      simp only [q, Part.source, List.length_append, List.length_cons]
      omega
    obtain ⟨ps, rest, h⟩ := ih (n + q.source.length) (Nat.lt_add_of_pos_right hpos)
    refine ⟨q :: ps, rest, h.cons ⟨hu, hc, ?_⟩ ?_ ?_⟩
    · rw [hclosing, hj, hlength, Option.map_some, Nat.add_comm]
    · rw [hafter, hdrop, hsource]
    · rw [hafter, hdrop]
      rw [hdrop] at hbest
      exact wrappedFrom_of_operator hu hbest hcut

/-- From every position on, the rest of the text is rewritten part by part. -/
theorem exists_partsFrom (s : Text) : ∀ m n, s.length ≤ n + m → ∃ ps rest, PartsFrom s n ps rest
  | 0, n, h => ⟨[], [], partsFrom_end (List.drop_of_length_le h)⟩
  | m + 1, n, h => by
    have ih : ∀ k, n < k → ∃ ps rest, PartsFrom s k ps rest := fun k hk =>
      exists_partsFrom s m k (by omega)
    cases hbest : wrappedHead.best? (s.drop n) with
    | some y =>
      obtain ⟨⟨x, opener⟩, r⟩ := y
      exact partsFrom_operator hbest ih
    | none =>
      cases hdrop : s.drop n with
      | nil => exact ⟨[], [], partsFrom_end hdrop⟩
      | cons c cs =>
        have hnext : s.drop (n + 1) = cs := by
          rw [← List.drop_drop, hdrop, List.drop_succ_cons, List.drop_zero]
        obtain ⟨ps, rest, hparts⟩ := ih (n + 1) (Nat.lt_succ_self n)
        refine ⟨.copied [c] :: ps, rest, PartsFrom.cons (q := .copied [c]) hparts ?_ ?_ ?_⟩
        · intro k hk
          obtain rfl : k = 0 := Nat.lt_one_iff.mp hk
          rw [operatorAt_iff, Nat.add_zero, not_not]
          exact List.head?_eq_none_iff.mp hbest
        · exact hdrop.trans (congrArg (c :: ·) hnext.symm)
        · rw [hdrop] at hbest
          rw [hdrop, wrappedFrom, hbest]
          exact congrArg (fun t => c :: wrappedFrom 0 t) hnext.symm

/-! ## The first operator that is not closed -/

/-- Every position of the parts is in one of them. -/
theorem exists_part : ∀ {ps : List Part} {p : Nat}, p < (ps.flatMap Part.source).length →
    ∃ before q after k, ps = before ++ q :: after ∧
      p = (before.flatMap Part.source).length + k ∧ k < q.source.length
  | [], p, h => absurd h (Nat.not_lt_zero p)
  | q :: ps, p, h => by
    by_cases hq : p < q.source.length
    · exact ⟨[], q, ps, p, rfl, (Nat.zero_add p).symm, hq⟩
    · rw [List.flatMap_cons, List.length_append] at h
      have hlater : p - q.source.length < (ps.flatMap Part.source).length := by omega
      obtain ⟨before, q', after, k, rfl, hp, hk⟩ := exists_part hlater
      refine ⟨q :: before, q', after, k, rfl, ?_, hk⟩
      rw [List.flatMap_cons, List.length_append]
      omega

theorem InOperator.lt_length {ps : List Part} (h : InOperator ps p) :
    p < (ps.flatMap Part.source).length := by
  obtain ⟨before, u, x, o, body, c, after, rfl, -, hlt⟩ := h
  rw [List.flatMap_append, List.flatMap_cons, List.length_append, List.length_append]
  omega

/-- In front of the rest, operators begin only in the brackets of others. -/
theorem PartsFrom.inOperator {ps : List Part} (h : PartsFrom s 0 ps rest) (hop : OperatorAt s p i)
    (hp : p < (ps.flatMap Part.source).length) : InOperator ps p := by
  obtain ⟨before, q, after, k, rfl, rfl, hk⟩ := exists_part hp
  have hfits := h.fits before q after rfl
  rw [Nat.zero_add] at hfits
  cases q with
  | copied t => exact absurd ⟨i, hop⟩ (hfits k hk)
  | operator u x o body c =>
    exact ⟨before, u, x, o, body, c, after, rfl, Nat.le_add_right _ _, Nat.add_lt_add_left hk _⟩

/-- **The rewriting of operators touches only what it rewrites.** Every text is made up of parts and a
rest. In the place of each operator with its brackets comes the call of its body and its variable, and
the other parts, in which no operator begins, are copied. So is the rest, and it is empty or begins with
an operator that is never closed: the first one outside the brackets that are rewritten. -/
theorem wrappedDerivatives_parts (s : Text) : ∃ ps rest,
    s = ps.flatMap Part.source ++ rest ∧
      wrappedDerivatives s = ps.flatMap Part.result ++ rest ∧
      (∀ before q after, ps = before ++ q :: after →
        q.FitsAt s (before.flatMap Part.source).length) ∧
      (rest ≠ [] → UnclosedAt s (ps.flatMap Part.source).length) ∧
      ∀ p, IsLeast {p | UnclosedAt s p ∧ ¬InOperator ps p} p → rest = s.drop p := by
  obtain ⟨ps, rest, h⟩ := exists_partsFrom s s.length 0 (Nat.le_add_left _ _)
  have hsource : s = ps.flatMap Part.source ++ rest := h.source
  have hunclosed : rest ≠ [] → UnclosedAt s (ps.flatMap Part.source).length := fun hne =>
    Nat.zero_add (ps.flatMap Part.source).length ▸ h.unclosed hne
  refine ⟨ps, rest, hsource, h.result, fun before q after heq => ?_, hunclosed, ?_⟩
  · have hfits := h.fits before q after heq
    rwa [Nat.zero_add] at hfits
  · rintro p ⟨⟨hp, hout⟩, hleast⟩
    have hle : (ps.flatMap Part.source).length ≤ p := by
      obtain ⟨i, hop, -⟩ := hp
      exact Nat.le_of_not_lt fun hlt => hout (h.inOperator hop hlt)
    have hne : rest ≠ [] := by
      rintro rfl
      have hlt := hp.lt_length
      rw [hsource, List.append_nil] at hlt
      exact absurd hlt (Nat.not_lt_of_le hle)
    have hge : p ≤ (ps.flatMap Part.source).length :=
      hleast ⟨hunclosed hne, fun hin => absurd hin.lt_length (Nat.lt_irrefl _)⟩
    obtain rfl := Nat.le_antisymm hge hle
    conv => rhs; rw [hsource]
    exact List.drop_left.symm

/-- In the brackets of another operator, one that is never closed is not left alone with what follows
it. -/
theorem wrappedDerivatives_unclosed_in_brackets :
    IsLeast {p | UnclosedAt "d/dx[d/dy(]".toList p} 5 ∧
      ¬"d/dx[d/dy(]".toList.drop 5 <:+ wrappedDerivatives "d/dx[d/dy(]".toList := by
  have hop {v : Char} (hv : isAnyCaseLetter v = true) : Operator ['d', '/', 'd', v] v :=
    @Operator.intro 'd' 'd' v [] [] [] [] rfl rfl rfl rfl rfl hv rfl
  have houter : OperatorAt "d/dx[d/dy(]".toList 0 4 :=
    ⟨_, 'x', '[', "d/dy(]".toList, hop (by decide), rfl, by decide, rfl⟩
  have hinner : OperatorAt "d/dx[d/dy(]".toList 5 9 :=
    ⟨_, 'y', '(', [']'], hop (by decide), rfl, by decide, rfl⟩
  have hclosed : closing "d/dx[d/dy(]".toList 4 = .ok (some 10) := by decide +kernel
  have hunclosed : closing "d/dx[d/dy(]".toList 9 = .ok none := by decide +kernel
  have hnone : ∀ p < 5, p ≠ 0 → wrappedHead ("d/dx[d/dy(]".toList.drop p) = [] := by decide +kernel
  refine ⟨⟨⟨9, hinner, hunclosed⟩, ?_⟩, by decide +kernel⟩
  rintro p ⟨i, hi, hclosing⟩
  refine Nat.le_of_not_lt fun hlt => ?_
  by_cases hp : p = 0
  · subst hp
    -- The bracket of the outer operator is closed.
    obtain rfl := hi.unique houter
    exact absurd (hclosed.symm.trans hclosing) (by simp)
  · exact operatorAt_iff.mp ⟨i, hi⟩ (hnone p hlt hp)

end Stepwise.Phrase
