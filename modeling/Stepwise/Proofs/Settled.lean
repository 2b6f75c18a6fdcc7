import Stepwise.Proofs.Extracted

/-!
# Tidying a tidy text

What is tightened are the joints of a text: operators between two digits, and equals signs. The digit
behind an operator is used up, so that `1 + 2 + 3` becomes `1+2 + 3`: the joint `2 + 3` is loose, but
it is never looked at. A text is `Settled` if all joints that are looked at are tight. A second scan of
such a text comes to the same joints as the first one, and leaves them alone.

Results: `settled_tighten`, a tightened text is settled; `Settled.trim` and
`Settled.map_roundBracket`, it stays so; and `tidy_contract`, a tidy text is tidied to itself, and
nothing but blanks was lost on the way.
-/

namespace Stepwise.Phrase

open Text Pattern

variable {c d e op : Char} {s t u v w w' x y : Text}

/-! ## Joints -/

/-- An operator between two digits, or an equals sign behind blanks. -/
inductive Joint : Text → Prop
  | operation {d op e : Char} {w w' : Text} (hd : isDigit d = true) (hop : op ∈ "+-*/^".toList)
      (he : isDigit e = true) (hw : AllBlanks w) (hw' : AllBlanks w') :
      Joint (d :: (w ++ op :: (w' ++ [e])))
  | equality {w : Text} (hw : AllBlanks w) : Joint (w ++ ['='])

/-- The text does not begin with a joint. -/
def Jointless (t : Text) : Prop := ∀ u, u <+: t → ¬Joint u

/-- At a joint there is something to read, and nowhere else. -/
theorem jointless_iff :
    Jointless t ↔ looseOperation.best? t = none ∧ looseEquality.best? t = none := by
  constructor
  · refine fun h => ⟨?_, looseEquality_eq_none.mpr fun w x hw he => ?_⟩
    · cases hb : looseOperation.best? t with
      | none => rfl
      | some z =>
        obtain ⟨d, op, e, w, w', -, rfl, hd, hop, he, hw, hw'⟩ :=
          mem_looseOperation.mp (mem_of_best? hb)
        exact absurd (.operation hd hop he hw hw') (h _ ⟨z.2, by simp⟩)
    · exact h _ ⟨x, by rw [he]; simp⟩ (.equality hw)
  · rintro ⟨ho, hq⟩ u ⟨x, rfl⟩ hu
    cases hu with
    | operation hd hop he hw hw' =>
      have := best?_looseOperation hd hop he hw hw' x
      simp only [List.cons_append, List.append_assoc, List.nil_append] at ho
      exact Option.some_ne_none _ (this.symm.trans ho)
    | @equality w hw => exact looseEquality_eq_none.mp hq w x hw (by simp)

theorem Jointless.of_prefix (h : Jointless t) (hs : s <+: t) : Jointless s :=
  fun u hu => h u (hu.trans hs)

/-! ## Settled texts -/

/-- All joints are tight that are looked at from the left. -/
inductive Settled : Text → Prop
  | nil : Settled []
  | keep {c : Char} {t : Text} (hj : Jointless (c :: t)) (h : Settled t) : Settled (c :: t)
  | operation {d op e : Char} {t : Text} (hd : isDigit d = true) (hop : op ∈ "+-*/^".toList)
      (he : isDigit e = true) (h : Settled t) : Settled (d :: op :: e :: t)
  | equality {t : Text} (hb : ∀ c, t.head? = some c → isBlank c = false) (h : Settled t) :
      Settled ('=' :: t)

theorem Settled.tightOperations_eq (h : Settled t) : tightOperations t = t := by
  induction h with
  | nil => rfl
  | keep hj _ ih =>
    exact (replaceAll_of_no_reading (jointless_iff.mp hj).1).trans (congrArg (_ :: ·) ih)
  | @operation d op e t hd hop he _ ih =>
    have hbest := best?_looseOperation hd hop he allBlanks_nil allBlanks_nil t
    have := replaceAll_of_reading (u := [d, op, e]) (List.cons_ne_nil _ _) hbest
    exact this.trans (congrArg ([d, op, e] ++ ·) ih)
  | equality _ _ ih =>
    exact (replaceAll_of_no_reading (looseOperation_of_not_digit (by decide) _)).trans
      (congrArg ('=' :: ·) ih)

theorem Settled.tightEqualities_eq (h : Settled t) : tightEqualities t = t := by
  induction h with
  | nil => rfl
  | keep hj _ ih =>
    exact (replaceAll_of_no_reading (jointless_iff.mp hj).2).trans (congrArg (_ :: ·) ih)
  | @operation d op e t hd hop he _ ih =>
    have hsign : isBlank op = false ∧ op ≠ '=' :=
      forall_mem_of_all (p := fun op => isBlank op = false ∧ op ≠ '=') (by decide) op hop
    rw [tight_digit hd, tightEqualities_cons hsign.1 hsign.2, tight_digit he, ih]
  | @equality t hb _ ih =>
    have hrest : t.dropWhile isBlank = t := by
      cases t with
      | nil => rfl
      | cons c t => exact List.dropWhile_cons_of_neg (by rw [hb c rfl]; decide)
    have hbest := best?_looseEquality allBlanks_nil t
    rw [hrest] at hbest
    have := replaceAll_of_reading (u := ['=']) (List.cons_ne_nil _ _) hbest
    exact this.trans (congrArg (['='] ++ ·) ih)

/-- **A settled text is tight already.** -/
theorem Settled.tighten_eq (h : Settled t) : tighten t = t := by
  rw [tighten, h.tightOperations_eq, h.tightEqualities_eq]

/-! ## Tightened texts are settled -/

/-- What is neither a digit nor an equals sign was there before. -/
theorem Tightened.exists_front (hv : ∀ c ∈ v, isDigit c = false ∧ c ≠ '=') :
    ∀ {s : Text}, Tightened s (v ++ y) → ∃ x, s = v ++ x ∧ Tightened x y := by
  induction v with
  | nil => exact fun {s} h => ⟨s, rfl, h⟩
  | cons c v ih =>
    obtain ⟨⟨hd, hq⟩, hv⟩ := List.forall_mem_cons.mp hv
    intro s h
    generalize hz : (c :: v) ++ y = z at h
    cases h with
    | nil => exact absurd hz (List.cons_ne_nil _ _)
    | keep _ h =>
      obtain ⟨rfl, rfl⟩ := List.cons.inj hz
      obtain ⟨x, rfl, hx⟩ := ih hv h
      exact ⟨x, rfl, hx⟩
    | operation hd' _ _ _ _ _ =>
      obtain ⟨rfl, -⟩ := List.cons.inj hz
      exact absurd (hd.symm.trans hd') (by decide)
    | equality _ _ _ => exact absurd (List.cons.inj hz).1 hq

theorem not_joining_of_allBlanks (hw : AllBlanks w) : ∀ c ∈ w, isDigit c = false ∧ c ≠ '=' := by
  intro c hc
  refine ⟨isDigit_of_isBlank (hw c hc), ?_⟩
  rintro rfl
  exact absurd (hw '=' hc) (by decide)

/-- **No joint comes into being when what follows is tightened.** -/
theorem Jointless.tightened (hj : Jointless (c :: s)) (h : Tightened s t) : Jointless (c :: t) := by
  rintro u ⟨y, hy⟩ hu
  cases hu with
  | @operation d op e w w' hd hop he hw hw' =>
    have hy : d :: ((w ++ op :: w') ++ e :: y) = c :: t := by simpa using hy
    obtain ⟨rfl, rfl⟩ := List.cons.inj hy
    have hsign : isDigit op = false ∧ op ≠ '=' :=
      forall_mem_of_all (p := fun op => isDigit op = false ∧ op ≠ '=') (by decide) op hop
    have hfront : ∀ c ∈ w ++ op :: w', isDigit c = false ∧ c ≠ '=' := List.forall_mem_append.mpr
      ⟨not_joining_of_allBlanks hw, List.forall_mem_cons.mpr ⟨hsign, not_joining_of_allBlanks hw'⟩⟩
    obtain ⟨x, rfl, hx⟩ := Tightened.exists_front hfront h
    obtain ⟨z, rfl⟩ : ∃ z, x = e :: z := by
      cases hx with
      | keep _ _ => exact ⟨_, rfl⟩
      | operation _ _ _ _ _ _ => exact ⟨_, rfl⟩
      | equality _ _ _ => exact absurd he (by decide)
    exact hj _ ⟨z, by simp⟩ (.operation hd hop he hw hw')
  | @equality w hw =>
    cases w with
    | nil =>
      obtain ⟨rfl, -⟩ := List.cons.inj hy
      exact hj ['='] ⟨s, rfl⟩ (.equality allBlanks_nil)
    | cons b w =>
      have hy : b :: (w ++ '=' :: y) = c :: t := by simpa using hy
      obtain ⟨rfl, rfl⟩ := List.cons.inj hy
      obtain ⟨hb, hw⟩ := List.forall_mem_cons.mp hw
      obtain ⟨x, rfl, hx⟩ := Tightened.exists_front (not_joining_of_allBlanks hw) h
      obtain ⟨v, z, hv, rfl⟩ : ∃ v z, AllBlanks v ∧ x = v ++ '=' :: z := by
        cases hx with
        | keep _ _ => exact ⟨[], _, allBlanks_nil, rfl⟩
        | operation hd _ _ _ _ _ => exact absurd hd (by decide)
        | equality hv _ _ => exact ⟨_, _, hv, rfl⟩
      refine hj (b :: (w ++ v) ++ ['=']) ⟨z, by simp⟩ (.equality ?_)
      exact List.forall_mem_cons.mpr ⟨hb, List.forall_mem_append.mpr ⟨hw, hv⟩⟩

/-- **A tightened text is settled.** -/
theorem settled_tighten (s : Text) : Settled (tighten s) := by
  refine tighten_induction (motive := fun _ t => Settled t) .nil ?keep ?operation ?equality s
  case keep =>
    intro c s ho hq h
    exact .keep ((jointless_iff.mpr ⟨ho, hq⟩).tightened (tightened_tighten s)) h
  case operation => exact fun hd hop he _ _ h => .operation hd hop he h
  case equality =>
    intro w w' s _ _ hs h
    refine .equality (fun c hc => Bool.eq_false_iff.mpr fun hb => ?_) h
    -- A blank at the front was there before.
    obtain ⟨y, hy⟩ := List.head?_eq_some_iff.mp hc
    obtain ⟨x, rfl⟩ := (hy ▸ tightened_tighten s).head hb
    rw [hs c rfl] at hb
    exact Bool.noConfusion hb

/-! ## Settled texts stay settled -/

theorem Settled.dropWhile (h : Settled t) : Settled (t.dropWhile isBlank) := by
  induction h with
  | nil => exact .nil
  | @keep c t hj h ih =>
    by_cases hc : isBlank c = true
    · rwa [List.dropWhile_cons_of_pos hc]
    · rw [List.dropWhile_cons_of_neg hc]
      exact .keep hj h
  | operation hd hop he h _ =>
    rw [List.dropWhile_cons_of_neg (by rw [(plain_digit hd).2.1]; decide)]
    exact .operation hd hop he h
  | equality hb h _ =>
    rw [List.dropWhile_cons_of_neg (by decide)]
    exact .equality hb h

theorem Settled.dropEndWhile (h : Settled t) : Settled (dropEndWhile isBlank t) := by
  induction h with
  | nil => exact .nil
  | @keep c t hj _ ih =>
    rw [dropEndWhile_cons]
    split
    · exact .nil
    · obtain ⟨r, hr, -⟩ := dropEndWhile_append isBlank t
      exact .keep (hj.of_prefix ((List.prefix_cons_inj c).mpr ⟨r, hr.symm⟩)) ih
  | @operation d op e t hd hop he _ ih =>
    have := dropEndWhile_append_cons (p := isBlank) (plain_digit he).2.1 [d, op] t
    rw [List.cons_append, List.cons_append, List.nil_append] at this
    rw [this]
    exact .operation hd hop he ih
  | @equality t hb _ ih =>
    have := dropEndWhile_append_cons (p := isBlank) (d := '=') (by decide) [] t
    rw [List.nil_append] at this
    rw [this]
    refine .equality (fun c hc => ?_) ih
    obtain ⟨r, hr, -⟩ := dropEndWhile_append isBlank t
    refine hb c ?_
    rw [hr, List.head?_append, hc]
    rfl

/-- A settled text can be trimmed. -/
theorem Settled.trim (h : Settled t) : Settled (trim t) := h.dropWhile.dropEndWhile

theorem roundBracket_eq_self (h : roundBracket c ∉ ['(', ')']) : roundBracket c = c := by
  rcases roundBracket_cases c with hc | hc
  · exact hc
  · exact absurd (forall_mem_of_all (p := fun c => roundBracket c ∈ ['(', ')']) (by decide) c hc) h

theorem roundBracket_roundBracket (c : Char) : roundBracket (roundBracket c) = roundBracket c := by
  rcases roundBracket_cases c with hc | hc
  · rw [hc, hc]
  · exact forall_mem_of_all (p := fun c => roundBracket (roundBracket c) = roundBracket c)
      (by decide) c hc

/-- No bracket is part of a joint. -/
theorem Joint.not_round (h : Joint u) : ∀ c ∈ u, c ∉ ['(', ')'] := by
  have digit : ∀ {d}, isDigit d = true → d ∉ ['(', ')'] := fun hd hm => by
    have := forall_mem_of_all (p := fun c => isDigit c = false) (by decide) _ hm
    exact absurd (hd.symm.trans this) (by decide)
  have blanks : ∀ {w}, AllBlanks w → ∀ c ∈ w, c ∉ ['(', ')'] := fun hw c hc hm => by
    have := forall_mem_of_all (p := fun c => isBlank c = false) (by decide) c hm
    exact absurd ((hw c hc).symm.trans this) (by decide)
  cases h with
  | @operation d op e w w' hd hop he hw hw' =>
    have hsign := forall_mem_of_all (p := fun op => op ∉ ['(', ')']) (by decide) op hop
    refine List.forall_mem_cons.mpr ⟨digit hd, List.forall_mem_append.mpr ⟨blanks hw, ?_⟩⟩
    refine List.forall_mem_cons.mpr ⟨hsign, List.forall_mem_append.mpr ⟨blanks hw', ?_⟩⟩
    exact List.forall_mem_singleton.mpr (digit he)
  | equality hw =>
    exact List.forall_mem_append.mpr ⟨blanks hw, List.forall_mem_singleton.mpr (by decide)⟩

/-- What is no bracket was there before the brackets became round. -/
theorem prefix_of_prefix_map (hu : ∀ c ∈ u, c ∉ ['(', ')']) : ∀ {t : Text},
    u <+: t.map roundBracket → u <+: t := by
  induction u with
  | nil => exact fun _ => List.nil_prefix
  | cons c u ih =>
    obtain ⟨hc, hu⟩ := List.forall_mem_cons.mp hu
    rintro t ⟨r, hr⟩
    cases t with
    | nil => exact absurd hr (by simp)
    | cons b t =>
      obtain ⟨hb, ht⟩ := List.cons.inj hr
      rw [hb] at hc ⊢
      rw [roundBracket_eq_self hc]
      exact (List.prefix_cons_inj b).mpr (ih hu ⟨r, ht⟩)

theorem Jointless.map_roundBracket (h : Jointless t) : Jointless (t.map roundBracket) :=
  fun u hu hj => h u (prefix_of_prefix_map hj.not_round hu) hj

/-- The brackets of a settled text can be made round. -/
theorem Settled.map_roundBracket (h : Settled t) : Settled (t.map roundBracket) := by
  have digit : ∀ {d}, isDigit d = true → roundBracket d = d := fun {d} hd => by
    rcases roundBracket_cases d with h | h
    · exact h
    · have := forall_mem_of_all (p := fun c => isDigit c = false) (by decide) d h
      exact absurd (hd.symm.trans this) (by decide)
  induction h with
  | nil => exact .nil
  | keep hj _ ih => exact .keep hj.map_roundBracket ih
  | @operation d op e t hd hop he _ ih =>
    have hsign : roundBracket op = op :=
      forall_mem_of_all (p := fun op => roundBracket op = op) (by decide) op hop
    rw [List.map_cons, List.map_cons, List.map_cons, digit hd, hsign, digit he]
    exact .operation hd hop he ih
  | @equality t hb _ ih =>
    refine .equality (fun c hc => ?_) ih
    rw [List.head?_map] at hc
    obtain ⟨b, hb', rfl⟩ := Option.map_eq_some_iff.mp hc
    rw [isBlank_roundBracket, hb b hb']

/-! ## Tidying twice -/

theorem settled_tidy (t : Text) : Settled (tidy t) := by
  rw [tidy_eq_map]
  exact (settled_tighten (squeeze t)).trim.map_roundBracket

/-- A tightened text has lost nothing but blanks. -/
theorem Tightened.removeBlanks_eq (h : Tightened s t) : removeBlanks t = removeBlanks s := by
  have cons : ∀ (c : Char) (t : Text), removeBlanks (c :: t) = removeBlanks [c] ++ removeBlanks t :=
    fun c t => removeBlanks_append [c] t
  induction h with
  | nil => rfl
  | keep _ _ ih => rw [cons, ih, ← cons]
  | @operation d op e w w' s t _ _ _ hw hw' _ ih =>
    rw [cons, cons op, cons e, ih, cons d (w ++ _), removeBlanks_append, removeBlanks_eq_nil hw,
      List.nil_append, cons op (w' ++ _), removeBlanks_append w', removeBlanks_eq_nil hw',
      List.nil_append, cons e s]
  | @equality w w' s t hw hw' _ ih =>
    rw [cons, ih, removeBlanks_append, removeBlanks_eq_nil hw, List.nil_append, cons '=' (w' ++ s),
      removeBlanks_append w', removeBlanks_eq_nil hw', List.nil_append]

theorem removeBlanks_map {f : Char → Char} (hf : ∀ c, isBlank (f c) = isBlank c) (t : Text) :
    removeBlanks (t.map f) = (removeBlanks t).map f := by
  rw [removeBlanks, List.filter_map, removeBlanks]
  exact congrArg (List.map f) (List.filter_congr fun c _ => congrArg (!·) (hf c))

/-- **A tidy text is tidied to itself, and a tidied text has lost nothing but blanks**: without them it
is the text that was given with all brackets round. -/
theorem tidy_contract (t : Text) :
    tidy (tidy t) = tidy t ∧ removeBlanks (tidy t) = (removeBlanks t).map roundBracket := by
  constructor
  · have hround : (tidy t).map roundBracket = tidy t := by
      rw [tidy_eq_map, List.map_map]
      exact List.map_congr_left fun c _ => roundBracket_roundBracket c
    calc tidy (tidy t) = trim ((tighten (squeeze (tidy t))).map roundBracket) := tidy_eq _
      _ = trim ((tidy t).map roundBracket) := by rw [squeeze_tidy, (settled_tidy t).tighten_eq]
      _ = tidy t := by rw [hround, trim_tidy]
  · calc removeBlanks (tidy t) = (removeBlanks (tighten (squeeze t))).map roundBracket := by
          rw [tidy_eq, removeBlanks_trim, removeBlanks_map isBlank_roundBracket]
          rfl
      _ = (removeBlanks t).map roundBracket := by
          rw [(tightened_tighten (squeeze t)).removeBlanks_eq, removeBlanks_squeeze]

end Stepwise.Phrase
