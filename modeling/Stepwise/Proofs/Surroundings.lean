import Stepwise.Proofs.Matching

/-!
# Calls in their surroundings

A call that is put together from a name and some arguments can be read back wherever it stands. In
front of it there must be no other call of the functions that are looked for, nor a letter right before
the name: then no call begins earlier (`isLeast_callAt`), as its name and bracket would have to be in
front of the call, or to reach into it with a letter. Behind the call anything may follow, brackets of
all kinds included, as the arguments close what they open.

Result: `callArguments_surrounded`.
-/

namespace Stepwise.Bracket

open Text Phrase

variable {a name p r s u v : Text} {args names : List Text}

theorem endsApart_of_append (h : EndsApart (u ++ v)) : EndsApart v := by
  intro c hc
  refine h c ?_
  rw [List.getLast?_append, hc]
  rfl

/-- A text does not end apart in the middle of a name. -/
theorem not_endsApart_of_letters (hne : v ≠ []) (hv : (v ++ a).all isLetter = true) :
    ¬EndsApart v := by
  intro h
  have hlast := List.getLast?_eq_some_getLast hne
  have hletter : (v.getLast hne).isAlpha = true :=
    List.all_eq_true.mp hv _ (List.mem_append_left a (List.getLast_mem hne))
  exact absurd (h _ hlast) (by rw [hletter]; decide)

section Names

variable (hnames : ∀ n ∈ names, n.all isLetter = true) (hname : name ∈ names)
  (hp : ∀ n ∈ names, ¬n ++ ['('] <:+: p) (hend : EndsApart p)
include hnames hname hp hend

/-- **No call begins in front of the first one.** -/
theorem isLeast_callAt (r : Text) :
    IsLeast {k | CallAt names (p ++ (name ++ '(' :: r)) k} p.length := by
  constructor
  · refine ⟨by rwa [List.take_left], name, hname, ?_⟩
    rw [List.drop_left]
    exact ⟨r, by simp⟩
  rintro k ⟨-, n, hn, y, hy⟩
  by_contra hk
  -- The text `p` has the part `v` behind the beginning of the earlier call.
  obtain ⟨u, v, rfl, rfl⟩ : ∃ u v, p = u ++ v ∧ u.length = k :=
    ⟨p.take k, p.drop k, (List.take_append_drop k p).symm, List.length_take_of_le (by omega)⟩
  have hv : v ≠ [] := by
    rintro rfl
    exact hk (by simp)
  rw [List.append_assoc u, List.drop_left] at hy
  have inside : ¬n ++ ['('] <+: v := fun h =>
    hp n hn (h.isInfix.trans (List.suffix_append u v).isInfix)
  have reaches : ∀ b, n ≠ v ++ b := fun b hb =>
    not_endsApart_of_letters hv (hb ▸ hnames n hn) (endsApart_of_append hend)
  rcases List.append_eq_append_iff.mp hy with ⟨b, rfl, -⟩ | ⟨b, hb, -⟩
  · exact inside (List.prefix_append _ b)
  · rcases List.append_eq_append_iff.mp hb with ⟨d, hd, hbracket⟩ | ⟨d, hd, -⟩
    · rcases List.append_eq_singleton_iff.mp hbracket.symm with ⟨rfl, -⟩ | ⟨rfl, -⟩
      · exact reaches [] (by rw [hd, List.append_nil, List.append_nil])
      · exact inside (hd ▸ List.prefix_refl _)
    · exact reaches d hd

theorem firstCall?_append (r : Text) :
    firstCall? names false (p ++ (name ++ '(' :: r)) = some r := by
  have hleast := isLeast_callAt hnames hname hp hend r
  rw [firstCall?_eq ⟨⟨hleast.1, fun _ => rfl⟩, fun m hm => hleast.2 hm.1⟩, List.drop_left,
    callHead?_call hnames hname]

/-- **A call is read back wherever it stands**: its arguments are found again without the blanks around
them, whatever is in front of it, but for a call or a letter, and whatever is behind it. -/
theorem callArguments_surrounded (hne : args ≠ []) (hb : ∀ a ∈ args, Balanced a)
    (hc : ∀ a ∈ args, NoBareComma a) (s : Text) :
    callArguments names (p ++ (callText name args ++ s)) = some (args.map trim) := by
  have hcall : callText name args ++ s = name ++ '(' :: (joinWith [','] args ++ ')' :: s) := by
    rw [callText_eq]
    simp
  rw [hcall]
  exact callArguments_of_firstCall? (firstCall?_append hnames hname hp hend _) hne hb hc

end Names

/-- Inside an open bracket and before another call, and with a call in the first argument. -/
theorem callArguments_surrounded_lim :
    callArguments [derivativeName, integralName, limitName, "lim".toList]
        ("2*(lim)+(".toList ++
          (callText "lim".toList ["diff(f(x),x) ".toList, " x".toList] ++ ")-diff(x,y".toList)) =
      some ["diff(f(x),x)".toList, "x".toList] := by
  have hargs : ∀ a ∈ ["diff(f(x),x) ".toList, " x".toList],
      WellNested a ∧ NoOuterComma a ∧ marks a = (marks a).map roundBracket := by decide
  refine callArguments_surrounded (by decide) (by decide) (by decide) ?_ (by decide) ?_ ?_ _
  · rintro c hc
    obtain rfl : '(' = c := Option.some.inj hc
    decide
  · exact fun a ha => balanced_of_marks (hargs a ha).1 (hargs a ha).2.2
  · exact fun a ha => noBareComma_of_marks (hargs a ha).1 (hargs a ha).2.1 (hargs a ha).2.2

end Stepwise.Bracket
