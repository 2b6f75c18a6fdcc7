import Stepwise.Proofs.Weight

/-!
# Patterns on a text with a tail

A text is followed by a tail, such as the mark that ends a sentence. Most patterns read the text as if
the tail was not there: `Steady tail p` says so of the readings that leave the tail alone, and
`Unmoved tail p` says that there are no others. A pattern that takes the rest of a text takes the
tail as well (`Continues tail p`).

Results: `Steady.bind`, by which patterns are steady because their parts are; `Steady.unmoved`, they
leave the tail alone if they end on a character that is not in it; and `replaceAll_append`, such
patterns are replaced in the text alone.
-/

namespace Stepwise.Pattern

open Text

variable {α β : Type} {tail : Text}

/-- Is at least as much left by a reading as the tail? -/
def leaves (tail : Text) (x : α × Text) : Bool := decide (tail.length ≤ x.2.length)

/-- A reading with the tail behind what it leaves. -/
def withTail (tail : Text) (x : α × Text) : α × Text := (x.1, x.2 ++ tail)

/-- Of the readings of a text with a tail, those that leave the tail alone are the readings of the
text. -/
structure Steady (tail : Text) (p : Pattern α) : Prop where
  leavesEnd : LeavesEnd p
  filter_eq : ∀ t, (p (t ++ tail)).filter (leaves tail) = (p t).map (withTail tail)

/-- Every reading of a text with a tail leaves the tail alone. -/
def Unmoved (tail : Text) (p : Pattern α) : Prop :=
  ∀ t, p (t ++ tail) = (p t).map (withTail tail)

theorem leaves_append (a : α) (t : Text) : leaves tail (a, t ++ tail) = true := by
  simp [leaves]

theorem leavesEnd_few (ok : Char → Bool) : LeavesEnd (few ok) :=
  fun _ a _ h => ⟨a, (mem_few h).symm⟩

theorem leavesEnd_few1 (ok : Char → Bool) : LeavesEnd (few1 ok) :=
  (leavesEnd_one ok).bind fun _ => (leavesEnd_few ok).bind fun _ => leavesEnd_pure _

theorem leavesEnd_notBefore (bad : Char → Bool) : LeavesEnd (notBefore bad) := by
  intro t a r h
  obtain rfl := mem_notBefore h
  exact List.suffix_refl _

theorem leavesEnd_before (ok : Char → Bool) : LeavesEnd (before ok) := by
  intro t a r h
  obtain ⟨rfl, -⟩ := mem_before.mp h
  exact List.suffix_refl _

/-! ## Steady patterns -/

theorem steady_pure (a : α) : Steady tail (pure a : Pattern α) where
  leavesEnd := leavesEnd_pure a
  filter_eq t := List.filter_cons_of_pos (leaves_append a t)

theorem steady_one (ok : Char → Bool) : Steady tail (one ok) := by
  refine ⟨leavesEnd_one ok, fun t => ?_⟩
  cases t with
  | nil =>
    cases tail with
    | nil => rfl
    | cons c cs => by_cases hc : ok c = true <;> simp [one, hc, leaves]
  | cons c cs => by_cases hc : ok c = true <;> simp [one, hc, leaves, withTail]

theorem steady_literal (w : Text) : Steady tail (literal w) := by
  refine ⟨leavesEnd_literal w, fun t => ?_⟩
  by_cases h : w.isPrefixOf t = true
  · obtain ⟨s, rfl⟩ := List.isPrefixOf_iff_prefix.mp h
    simp [literal, leaves, withTail]
  · have none : literal w t = [] := if_neg h
    rw [none, List.map_nil, List.filter_eq_nil_iff]
    rintro ⟨u, r⟩ hr hl
    have he := mem_literal.mp hr
    obtain ⟨s, rfl⟩ : tail <:+ r :=
      List.suffix_of_suffix_length_le (List.suffix_append t tail) ⟨w, he.symm⟩
        (of_decide_eq_true hl)
    rw [← List.append_assoc] at he
    exact h (List.isPrefixOf_iff_prefix.mpr ⟨s, (List.append_cancel_right he).symm⟩)

theorem filter_word : ∀ w t : Text,
    (word w (t ++ tail)).filter (leaves tail) = (word w t).map (withTail tail)
  | [], t => List.filter_cons_of_pos (leaves_append () t)
  | p :: ps, [] => by
    -- A letter of the tail is gone once it has been read.
    rw [List.filter_eq_nil_iff.mpr]
    · rfl
    rintro ⟨u, r⟩ hr hl
    cases tail with
    | nil => exact absurd hr List.not_mem_nil
    | cons c cs =>
      have hs : r <:+ cs := by
        change ((), r) ∈ if sameLetter p c then word ps cs else [] at hr
        split at hr
        · exact leavesEnd_word ps cs () r hr
        · exact absurd hr List.not_mem_nil
      have hl : (c :: cs).length ≤ r.length := of_decide_eq_true hl
      exact Nat.not_succ_le_self _ (Nat.le_trans hl hs.length_le)
  | p :: ps, c :: cs => by
    change List.filter _ (if sameLetter p c then word ps (cs ++ tail) else []) =
      List.map _ (if sameLetter p c then word ps cs else [])
    split
    · exact filter_word ps cs
    · rfl

theorem steady_word (w : Text) : Steady tail (word w) := ⟨leavesEnd_word w, filter_word w⟩

/-- Of the readings of a text that take its first character, none leaves all of it. -/
theorem filter_whole_eq_nil {c : Char} {cs : Text} {l : List (Text × Text)}
    (h : ∀ x ∈ l, cs = x.1 ++ x.2) :
    (l.map fun x => (c :: x.1, x.2)).filter (leaves (c :: cs)) = [] := by
  rw [List.filter_eq_nil_iff]
  intro x hx hl
  obtain ⟨y, hy, rfl⟩ := List.mem_map.mp hx
  have hlen := congrArg List.length (h y hy)
  have hl : (c :: cs).length ≤ y.2.length := of_decide_eq_true hl
  rw [List.length_append] at hlen
  rw [List.length_cons] at hl
  omega

/-- Readings that leave the tail alone do so with another character in front, too. -/
theorem filter_map_cons {c : Char} {l l' : List (Text × Text)}
    (h : l.filter (leaves tail) = l'.map (withTail tail)) :
    (l.map fun x => (c :: x.1, x.2)).filter (leaves tail) =
      (l'.map fun x => (c :: x.1, x.2)).map (withTail tail) := by
  have := congrArg (List.map fun x : Text × Text => (c :: x.1, x.2)) h
  rw [List.map_map] at this
  rwa [List.filter_map, List.map_map]

theorem many_cons {ok : Char → Bool} {c : Char} (h : ok c = true) (cs : Text) :
    many ok (c :: cs) = ((many ok cs).map fun x => (c :: x.1, x.2)) ++ [([], c :: cs)] := if_pos h

theorem many_stop {ok : Char → Bool} {c : Char} (h : ¬ok c = true) (cs : Text) :
    many ok (c :: cs) = [([], c :: cs)] := if_neg h

theorem few_cons {ok : Char → Bool} {c : Char} (h : ok c = true) (cs : Text) :
    few ok (c :: cs) = ([], c :: cs) :: (few ok cs).map fun x => (c :: x.1, x.2) :=
  congrArg (_ :: ·) (if_pos h)

theorem few_stop {ok : Char → Bool} {c : Char} (h : ¬ok c = true) (cs : Text) :
    few ok (c :: cs) = [([], c :: cs)] := congrArg (_ :: ·) (if_neg h)

theorem steady_many (ok : Char → Bool) : Steady tail (many ok) := by
  refine ⟨leavesEnd_many ok, fun t => ?_⟩
  have whole : ∀ u : Text, [(([] : Text), u ++ tail)].filter (leaves tail) = [([], u ++ tail)] :=
    fun u => List.filter_cons_of_pos (leaves_append [] u)
  induction t with
  | nil =>
    cases tail with
    | nil => rfl
    | cons c cs =>
      by_cases hc : ok c = true
      · rw [List.nil_append, many_cons hc, List.filter_append, filter_whole_eq_nil, List.nil_append]
        · exact whole []
        · exact fun x hx => (mem_many hx).1.symm
      · rw [List.nil_append, many_stop hc]
        exact whole []
  | cons c cs ih =>
    by_cases hc : ok c = true
    · rw [List.cons_append, many_cons hc, many_cons hc, List.filter_append, filter_map_cons ih,
        List.map_append]
      exact congrArg (_ ++ ·) (whole (c :: cs))
    · rw [List.cons_append, many_stop hc, many_stop hc]
      exact whole (c :: cs)

theorem steady_few (ok : Char → Bool) : Steady tail (few ok) := by
  refine ⟨leavesEnd_few ok, fun t => ?_⟩
  have whole : ∀ u : Text, leaves tail (([] : Text), u ++ tail) = true := leaves_append []
  induction t with
  | nil =>
    cases tail with
    | nil => rfl
    | cons c cs =>
      by_cases hc : ok c = true
      · rw [List.nil_append, few_cons hc]
        refine (List.filter_cons_of_pos (whole [])).trans (congrArg (_ :: ·) ?_)
        exact filter_whole_eq_nil fun x hx => mem_few hx
      · rw [List.nil_append, few_stop hc]
        exact List.filter_cons_of_pos (whole [])
  | cons c cs ih =>
    by_cases hc : ok c = true
    · rw [List.cons_append, few_cons hc, few_cons hc]
      exact (List.filter_cons_of_pos (whole (c :: cs))).trans (congrArg (_ :: ·) (filter_map_cons ih))
    · rw [List.cons_append, few_stop hc, few_stop hc]
      exact List.filter_cons_of_pos (whole (c :: cs))

/-- **A pattern is steady if its parts are.** A part that reads into the tail leaves less than the
tail, and so does what follows it. -/
theorem Steady.bind {p : Pattern α} {f : α → Pattern β} (hp : Steady tail p)
    (hf : ∀ a, Steady tail (f a)) : Steady tail (p >>= f) := by
  refine ⟨hp.leavesEnd.bind fun a => (hf a).leavesEnd, fun t => ?_⟩
  have pieces : ∀ l : List (α × Text), (l.flatMap fun x => f x.1 x.2).filter (leaves tail) =
      (l.filter (leaves tail)).flatMap fun x => (f x.1 x.2).filter (leaves tail) := by
    intro l
    induction l with
    | nil => rfl
    | cons x xs ih =>
      rw [List.flatMap_cons, List.filter_append, ih]
      by_cases hx : leaves tail x = true
      · rw [List.filter_cons_of_pos hx, List.flatMap_cons]
      · have none : (f x.1 x.2).filter (leaves tail) = [] := by
          rw [List.filter_eq_nil_iff]
          rintro ⟨b, r⟩ hr hl
          have hle := ((hf x.1).leavesEnd x.2 b r hr).length_le
          exact hx (decide_eq_true (Nat.le_trans (of_decide_eq_true hl) hle))
        rw [List.filter_cons_of_neg hx, none, List.nil_append]
  change ((p (t ++ tail)).flatMap fun x => f x.1 x.2).filter (leaves tail) =
    ((p t).flatMap fun x => f x.1 x.2).map (withTail tail)
  rw [pieces, hp.filter_eq t, List.flatMap_map, List.map_flatMap]
  exact congrArg List.flatten (List.map_congr_left fun x _ => (hf x.1).filter_eq x.2)

theorem steady_many1 (ok : Char → Bool) : Steady tail (many1 ok) :=
  (steady_one ok).bind fun _ => (steady_many ok).bind fun _ => steady_pure _

theorem steady_few1 (ok : Char → Bool) : Steady tail (few1 ok) :=
  (steady_one ok).bind fun _ => (steady_few ok).bind fun _ => steady_pure _

theorem steady_guard (b : Bool) : Steady tail (guard b) := by
  refine ⟨leavesEnd_guard b, fun t => ?_⟩
  cases b with
  | false => rfl
  | true => exact List.filter_cons_of_pos (leaves_append () t)

theorem Steady.either {p q : Pattern α} (hp : Steady tail p) (hq : Steady tail q) :
    Steady tail (either p q) := by
  refine ⟨hp.leavesEnd.either hq.leavesEnd, fun t => ?_⟩
  unfold Pattern.either
  rw [List.filter_append, List.map_append, hp.filter_eq t, hq.filter_eq t]

theorem Steady.optional {p : Pattern α} (hp : Steady tail p) : Steady tail (optional p) := by
  refine ⟨hp.leavesEnd.optional, fun t => ?_⟩
  have some : ∀ l : List (α × Text), (l.map fun x => (Option.some x.1, x.2)).filter (leaves tail) =
      (l.filter (leaves tail)).map fun x => (Option.some x.1, x.2) := fun l => List.filter_map
  unfold Pattern.optional
  rw [List.filter_append, List.map_append, some, hp.filter_eq t, List.map_map, List.map_map]
  exact congrArg (_ ++ ·) (List.filter_cons_of_pos (leaves_append none t))

/-- What must not follow does not come with the tail. -/
theorem steady_notBefore {bad : Char → Bool} (h : ∀ c ∈ tail, bad c = false) :
    Steady tail (notBefore bad) := by
  refine ⟨leavesEnd_notBefore bad, fun t => ?_⟩
  cases t with
  | nil =>
    cases tail with
    | nil => rfl
    | cons c cs =>
      have hc := h c List.mem_cons_self
      simp [notBefore, hc, leaves, withTail]
  | cons c cs =>
    by_cases hc : bad c = true
    · simp [notBefore, hc]
    · rw [List.cons_append]
      simpa [notBefore, hc, withTail] using leaves_append () (c :: cs)

/-- What must follow does not come with the tail. -/
theorem steady_before {ok : Char → Bool} (h : ∀ c ∈ tail, ok c = false) :
    Steady tail (before ok) := by
  refine ⟨leavesEnd_before ok, fun t => ?_⟩
  cases t with
  | nil =>
    cases tail with
    | nil => rfl
    | cons c cs =>
      have hc := h c List.mem_cons_self
      simp [before, hc]
  | cons c cs =>
    by_cases hc : ok c = true
    · rw [List.cons_append]
      simpa [before, hc, withTail] using leaves_append () (c :: cs)
    · simp [before, hc]

/-! ## Patterns that leave the tail alone -/

/-- There is a character of another kind than those of the tail in front of what is left, or it comes
first there. -/
def Anchored (tail : Text) (p : Pattern α) : Prop :=
  ∀ t a r, (a, r) ∈ p t → ∃ d w, d :: w <:+ t ∧ d ∉ tail ∧ w <:+ r

theorem Steady.unmoved {p : Pattern α} (hp : Steady tail p) (ha : Anchored tail p) :
    Unmoved tail p := by
  intro t
  rw [← hp.filter_eq t, List.filter_eq_self.mpr]
  rintro ⟨a, r⟩ hr
  obtain ⟨d, w, hs, hd, hw⟩ := ha _ a r hr
  refine decide_eq_true ?_
  rcases List.suffix_or_suffix_of_suffix hs (List.suffix_append t tail) with h | h
  · exact absurd (h.subset List.mem_cons_self) hd
  · rcases List.suffix_cons_iff.mp h with rfl | h
    · exact absurd List.mem_cons_self hd
    · exact Nat.le_trans h.length_le hw.length_le

theorem Anchored.after {p : Pattern α} {f : α → Pattern β} (hp : LeavesEnd p)
    (hf : ∀ a, Anchored tail (f a)) : Anchored tail (p >>= f) := by
  intro t b r h
  obtain ⟨a, s, hs, hr⟩ := mem_bind.mp h
  obtain ⟨d, w, hsuf, hd, hw⟩ := hf a s b r hr
  exact ⟨d, w, hsuf.trans (hp t a s hs), hd, hw⟩

/-- Nothing more is read. -/
theorem Anchored.stay {p : Pattern α} {f : α → Pattern β} (hp : Anchored tail p)
    (hf : ∀ a t b r, (b, r) ∈ f a t → r = t) : Anchored tail (p >>= f) := by
  intro t b r h
  obtain ⟨a, s, hs, hr⟩ := mem_bind.mp h
  obtain rfl := hf a s b r hr
  exact hp t a r hs

theorem Anchored.result {p : Pattern α} (hp : Anchored tail p) (f : α → β) :
    Anchored tail (p >>= fun a => pure (f a)) :=
  hp.stay fun _ _ _ _ h => (mem_pure.mp h).2

theorem anchored_one {ok : Char → Bool} (h : ∀ c ∈ tail, ok c = false) :
    Anchored tail (one ok) := by
  intro t c r hr
  obtain ⟨rfl, hc⟩ := mem_one.mp hr
  refine ⟨c, r, List.suffix_refl _, fun hm => ?_, List.suffix_refl _⟩
  rw [h c hm] at hc
  exact Bool.false_ne_true hc

theorem anchored_literal {w : Text} {c : Char} (h : c ∉ tail) :
    Anchored tail (literal (w ++ [c])) := by
  intro t u r hr
  obtain rfl := mem_literal.mp hr
  refine ⟨c, r, ⟨w, ?_⟩, h, List.suffix_refl _⟩
  rw [List.append_assoc, List.singleton_append]

theorem anchored_before {ok : Char → Bool} (h : ∀ c ∈ tail, ok c = false) :
    Anchored tail (before ok) := by
  intro t u r hr
  obtain ⟨rfl, c, cs, rfl, hc⟩ := mem_before.mp hr
  refine ⟨c, cs, List.suffix_refl _, fun hm => ?_, List.suffix_cons _ _⟩
  rw [h c hm] at hc
  exact Bool.false_ne_true hc

theorem Unmoved.best?_append {p : Pattern α} (hp : Unmoved tail p) (t : Text) :
    p.best? (t ++ tail) = (p.best? t).map (withTail tail) := by
  rw [best?, hp t, List.head?_map, best?]

/-- In the tail itself a pattern that leaves it alone reads nothing. -/
theorem Anchored.eq_nil {p : Pattern α} (hp : Anchored tail p) {s : Text} (hs : s <:+ tail) :
    p s = [] := by
  refine List.eq_nil_iff_forall_not_mem.mpr ?_
  rintro ⟨a, r⟩ h
  obtain ⟨d, w, hd, hn, -⟩ := hp s a r h
  exact hn (hs.subset (hd.subset List.mem_cons_self))

section Replacing

variable {p : Option Char → Pattern Text}

theorem replaceFrom_append (hs : ∀ last, Steady tail (p last)) (ha : ∀ last, Anchored tail (p last)) :
    ∀ (t : Text) (last : Option Char) (skip : Nat), skip ≤ t.length →
      replaceFrom p last skip (t ++ tail) = replaceFrom p last skip t ++ tail
  | [], last, skip, h => by
    obtain rfl := Nat.le_zero.mp h
    refine replaceFrom_of_none p last tail fun l s hsuf => ?_
    rw [best?, (ha l).eq_nil hsuf]
    rfl
  | c :: cs, last, skip + 1, h => replaceFrom_append hs ha cs _ skip (Nat.le_of_succ_le_succ h)
  | c :: cs, last, 0, _ => by
    have hb := ((hs last).unmoved (ha last)).best?_append (c :: cs)
    rw [List.cons_append] at hb
    rw [List.cons_append, replaceFrom, replaceFrom, hb]
    cases (p last).best? (c :: cs) with
    | none => exact congrArg (c :: ·) (replaceFrom_append hs ha cs _ 0 (Nat.zero_le _))
    | some x =>
      have hl : (cs ++ tail).length - (x.2 ++ tail).length = cs.length - x.2.length := by
        rw [List.length_append, List.length_append]
        omega
      have ih := replaceFrom_append hs ha cs (some c) _ (Nat.sub_le cs.length x.2.length)
      simp only [Option.map_some, withTail, hl, ih, List.append_assoc]

/-- **A pattern that leaves the tail alone is replaced in the text alone.** -/
theorem replaceAll_append (hs : ∀ last, Steady tail (p last)) (ha : ∀ last, Anchored tail (p last))
    (t : Text) : replaceAll p (t ++ tail) = replaceAll p t ++ tail :=
  replaceFrom_append hs ha t none 0 (Nat.zero_le _)

end Replacing

/-! ## Patterns that take the rest -/

/-- A text without line breaks that the pattern can read can still be read when it has a tail. -/
def Continues (tail : Text) (p : Pattern α) : Prop :=
  ∀ t, (∀ c ∈ t, inLine c = true) → p t ≠ [] → p (t ++ tail) ≠ []

theorem Steady.mem_append {p : Pattern α} (hp : Steady tail p) {t r : Text} {a : α}
    (h : (a, r) ∈ p t) : (a, r ++ tail) ∈ p (t ++ tail) := by
  have hm : (a, r ++ tail) ∈ (p t).map (withTail tail) := List.mem_map.mpr ⟨(a, r), h, rfl⟩
  rw [← hp.filter_eq t] at hm
  exact (List.mem_filter.mp hm).1

theorem Steady.continues {p : Pattern α} {f : α → Pattern β} (hp : Steady tail p)
    (hf : ∀ a, Continues tail (f a)) : Continues tail (p >>= f) := by
  intro t ht h
  obtain ⟨x, hx⟩ := List.exists_mem_of_ne_nil _ h
  obtain ⟨a, r, hr, hx⟩ := mem_bind.mp hx
  have hin : ∀ c ∈ r, inLine c = true := fun c hc => ht c ((hp.leavesEnd t a r hr).subset hc)
  obtain ⟨y, hy⟩ := List.exists_mem_of_ne_nil _ (hf a r hin (List.ne_nil_of_mem hx))
  exact List.ne_nil_of_mem (mem_bind.mpr ⟨a, r ++ tail, hp.mem_append hr, hy⟩)

end Stepwise.Pattern
