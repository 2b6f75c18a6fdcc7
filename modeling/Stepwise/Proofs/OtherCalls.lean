import Stepwise.Proofs.PlainCalls

/-!
# Calls behind another name

The first call of some functions is looked for in a text. If the text is a call of one of them, that is
the one; if it is a call of another function, its name is passed over, and the arguments are looked
through one after the other. Each of them closes its brackets, so that what is found in it ends in it.

Results: `callArguments_callText_of_mem`, a call is read by its own name; and
`callArguments_callText_other`, what is found behind the name of another function.
-/

namespace Stepwise

open Text Pattern Phrase

namespace Bracket

variable {a b name r s t w x : Text} {args names : List Text} {c : Char} {n : Nat}

/-! ## What is enclosed -/

/-- What is enclosed does not depend on what follows. -/
theorem enclosed_append_of_some (y : Text) : ∀ {x b : Text} {n : Nat}, enclosed n x = some b →
    enclosed n (x ++ y) = some b
  | [], _, _, h => absurd h (by simp [enclosed])
  | c :: cs, b, n, h => by
    have next : ∀ {m : Nat}, (enclosed m cs).map (c :: ·) = some b →
        (enclosed m (cs ++ y)).map (c :: ·) = some b := by
      intro m h
      obtain ⟨b', hb, rfl⟩ := Option.map_eq_some_iff.mp h
      rw [enclosed_append_of_some y hb]
      rfl
    rw [List.cons_append]
    unfold enclosed at h ⊢
    split at h
    next ho =>
      rw [if_pos ho]
      exact next h
    next ho =>
      rw [if_neg ho]
      split at h
      next hc =>
        rw [if_pos hc]
        cases n with
        | zero => exact h
        | succ n => exact next h
      next hc =>
        rw [if_neg hc]
        exact next h

/-- What is enclosed is followed by its closing bracket. -/
theorem exists_of_enclosed : ∀ {x b : Text} {n : Nat}, enclosed n x = some b →
    ∃ r, x = b ++ ')' :: r
  | [], _, _, h => absurd h (by simp [enclosed])
  | c :: cs, b, n, h => by
    have next : ∀ {m : Nat}, (enclosed m cs).map (c :: ·) = some b → ∃ r, c :: cs = b ++ ')' :: r := by
      intro m h
      obtain ⟨b', hb, rfl⟩ := Option.map_eq_some_iff.mp h
      obtain ⟨r, rfl⟩ := exists_of_enclosed hb
      exact ⟨r, rfl⟩
    unfold enclosed at h
    split at h
    · exact next h
    next ho =>
      split at h
      next hc =>
        cases n with
        | zero =>
          obtain rfl := Option.some.inj h
          exact ⟨cs, by rw [hc]; rfl⟩
        | succ n => exact next h
      · exact next h

/-- A text without commas is one piece. -/
theorem pieces_of_not_mem : ∀ {t : Text} (n : Int), ',' ∉ t → pieces n t = [t]
  | [], _, _ => rfl
  | c :: cs, n, h => by
    have hcs : ',' ∉ cs := fun hm => h (List.mem_cons_of_mem c hm)
    have hc : c ≠ ',' := fun he => h (he ▸ List.mem_cons_self)
    rw [pieces]
    simp only [hc, false_and, if_false, pieces_of_not_mem _ hcs]

theorem findSome?_cons_eq_or {α β : Type} (f : α → Option β) (x : α) (xs : List α) :
    (x :: xs).findSome? f = (f x).or (xs.findSome? f) := by
  rw [List.findSome?_cons]
  cases f x <;> rfl

/-- Behind a letter no call begins. -/
theorem firstCall?_letters (hw : w.all isLetter = true) (r : Text) :
    firstCall? names true (w ++ '(' :: r) = firstCall? names false r := by
  induction w with
  | nil =>
    rw [List.nil_append, firstCall?]
    rfl
  | cons c cs ih =>
    obtain ⟨hc, hcs⟩ := (Bool.and_eq_true _ _).mp hw
    have hc : c.isAlpha = true := hc
    rw [List.cons_append, firstCall?, hc]
    exact ih hcs

theorem bracket_not_mem (hw : w.all isLetter = true) : '(' ∉ w := fun hm =>
  absurd (List.all_eq_true.mp hw _ hm) (by decide)

/-- What a text begins with ends in front of a character that it does not have. -/
theorem prefix_of_prefix_append_cons {w : Text} (hc : c ∉ w) (h : w <+: a ++ c :: r) : w <+: a := by
  rcases List.prefix_or_prefix_of_prefix h (List.prefix_append a (c :: r)) with h | ⟨y, rfl⟩
  · exact h
  · obtain ⟨z, hz⟩ := h
    rw [List.append_assoc] at hz
    have hz := List.append_cancel_left hz
    cases y with
    | nil => simp
    | cons d y =>
      obtain ⟨rfl, -⟩ := List.cons.inj hz
      exact absurd (List.mem_append_right a List.mem_cons_self) hc

section Names

variable (hnames : ∀ k ∈ names, k.all isLetter = true)
include hnames

/-- A character that is no letter and no opening bracket comes after every call. -/
theorem callHead?_append_cons (hc : isLetter c = false) (ho : c ≠ '(') (a r : Text) :
    callHead? names (a ++ c :: r) = (callHead? names a).map (· ++ c :: r) := by
  induction names with
  | nil => rfl
  | cons k ks ih =>
    have ih := ih fun k hk => hnames k (List.mem_cons_of_mem _ hk)
    have hk : c ∉ k ++ ['('] := fun hm => by
      rcases List.mem_append.mp hm with hm | hm
      · rw [List.all_eq_true.mp (hnames k List.mem_cons_self) c hm] at hc
        exact Bool.noConfusion hc
      · exact ho (List.mem_singleton.mp hm)
    unfold callHead? at ih ⊢
    rw [List.findSome?_cons, List.findSome?_cons, ih]
    by_cases hp : k ++ ['('] <+: a
    · obtain ⟨y, rfl⟩ := hp
      have hleft : (k ++ ['('] ++ y).drop (k.length + 1) = y := List.drop_left' (by simp)
      have hright : (k ++ ['('] ++ y ++ c :: r).drop (k.length + 1) = y ++ c :: r := by
        rw [List.append_assoc]
        exact List.drop_left' (by simp)
      rw [if_pos (List.isPrefixOf_iff_prefix.mpr (List.prefix_append _ y)),
        if_pos (List.isPrefixOf_iff_prefix.mpr ⟨y ++ c :: r, by simp⟩), hleft, hright]
      rfl
    · have hq : ¬k ++ ['('] <+: a ++ c :: r := fun h => hp (prefix_of_prefix_append_cons hk h)
      rw [if_neg (fun h => hp (List.isPrefixOf_iff_prefix.mp h)),
        if_neg (fun h => hq (List.isPrefixOf_iff_prefix.mp h))]

/-- The first call is in front of such a character, if there is one there. -/
theorem firstCall?_append_cons (hc : isLetter c = false) (ho : c ≠ '(') (r : Text) :
    ∀ (a : Text) (after : Bool), firstCall? names after (a ++ c :: r) =
      ((firstCall? names after a).map (· ++ c :: r)).or (firstCall? names false r)
  | [], after => by
    have hnil : callHead? names [] = none := Option.eq_none_iff_forall_ne_some.mpr fun y hy => by
      obtain ⟨k, -, hk⟩ := callHead?_eq_some hy
      exact absurd hk (by simp)
    have hhead : callHead? names (c :: r) = none := by
      rw [← List.nil_append (c :: r), callHead?_append_cons hnames hc ho, hnil]
      rfl
    have halpha : c.isAlpha = false := hc
    have hstep : firstCall? names after (c :: r) = firstCall? names false r := by
      rw [firstCall?, hhead, ite_self, halpha]
    exact hstep
  | d :: ds, after => by
    rw [List.cons_append, firstCall?, firstCall?, ← List.cons_append,
      callHead?_append_cons hnames hc ho]
    cases after with
    | true => exact firstCall?_append_cons hc ho r ds _
    | false =>
      cases callHead? names (d :: ds) with
      | none => exact firstCall?_append_cons hc ho r ds _
      | some y => rfl

/-- A balanced text closes the calls that stand in it. -/
theorem callArguments_append_cons (hb : Bracket.Balanced a) (hc : isLetter c = false) (ho : c ≠ '(')
    (r : Text) : callArguments names (a ++ c :: r) =
      (callArguments names a).or (callArguments names r) := by
  unfold callArguments
  rw [firstCall?_append_cons hnames hc ho]
  cases hfirst : firstCall? names false a with
  | none => rfl
  | some x =>
    obtain ⟨u, name, hname, he, hu, -⟩ := exists_of_firstCall? hfirst
    have hfound := (callArguments_ne_none_iff hb names).mpr ⟨name, hname, u, x, he, hu⟩
    rw [callArguments, hfirst] at hfound
    cases hbody : enclosed 0 x with
    | none =>
      simp only [hbody, Option.bind_eq_bind, Option.bind_some, Option.bind_none, ne_eq,
        not_true_eq_false] at hfound
    | some body =>
      simp only [Option.map_some, Option.some_or, Option.bind_eq_bind, Option.bind_some, hbody,
        enclosed_append_of_some (c :: r) hbody, Option.pure_def]

/-- **Behind a name that is not asked for, the first call in an argument is found.** -/
theorem callArguments_arguments : ∀ {args : List Text}, (∀ a ∈ args, Bracket.Balanced a) →
    callArguments names (joinWith [','] args ++ [')']) = args.findSome? (callArguments names)
  | [], _ => by
    have := callArguments_append_cons hnames (a := []) (c := ')') rfl (by decide) (by decide) []
    exact this
  | [a], hb => by
    have := callArguments_append_cons hnames (hb a List.mem_cons_self) (c := ')') (by decide)
      (by decide) []
    rw [findSome?_cons_eq_or]
    exact this
  | a :: b :: rest, hb => by
    have hj : joinWith [','] (a :: b :: rest) ++ [')'] =
        a ++ ',' :: (joinWith [','] (b :: rest) ++ [')']) := by
      simp [joinWith]
    have ih := callArguments_arguments fun x hx => hb x (List.mem_cons_of_mem a hx)
    rw [hj, callArguments_append_cons hnames (hb a List.mem_cons_self) (by decide) (by decide), ih]
    exact (findSome?_cons_eq_or (callArguments names) a (b :: rest)).symm

theorem callArguments_callText_other (hw : w.all isLetter = true) (hne : w ≠ []) (hn : w ∉ names)
    (hb : ∀ a ∈ args, Bracket.Balanced a) :
    callArguments names (callText w args) = args.findSome? (callArguments names) := by
  obtain ⟨c, cs, rfl⟩ := List.exists_cons_of_ne_nil hne
  obtain ⟨hc, hcs⟩ := (Bool.and_eq_true _ _).mp hw
  have hc : c.isAlpha = true := hc
  have hhead : ∀ r, callHead? names (c :: (cs ++ '(' :: r)) = none := by
    intro r
    refine Option.eq_none_iff_forall_ne_some.mpr fun y hy => ?_
    obtain ⟨k, hk, he⟩ := callHead?_eq_some hy
    rcases append_cons_cases (x := c :: cs) (bracket_not_mem (hnames k hk)) he with hck | ⟨m, hm, -⟩
    · exact hn (hck ▸ hk)
    · exact bracket_not_mem hw (by rw [hm]; simp)
  rw [← callArguments_arguments hnames hb, callText_eq, callArguments, callArguments,
    List.cons_append, firstCall?, hhead]
  simp only [Bool.false_eq_true, if_false, hc, firstCall?_letters hcs]

/-- A name is called if its bracket follows. -/
theorem callHead?_call (hs : s ∈ names) (r : Text) : callHead? names (s ++ '(' :: r) = some r := by
  obtain ⟨y, hy⟩ := Option.ne_none_iff_exists'.mp (callHead?_ne_none (b := r) hs)
  obtain ⟨k, hk, he⟩ := callHead?_eq_some hy
  rcases append_cons_cases (bracket_not_mem (hnames k hk)) he with rfl | ⟨m, hm, -⟩
  · obtain ⟨-, rfl⟩ := List.cons.inj (List.append_cancel_left he)
    exact hy
  · exact absurd (by rw [hm]; simp) (bracket_not_mem (hnames s hs))

theorem firstCall?_callText (hs : s ∈ names) (args : List Text) :
    firstCall? names false (callText s args) = some (joinWith [','] args ++ [')']) := by
  have hhead := callHead?_call hnames hs (joinWith [','] args ++ [')'])
  obtain ⟨c, cs, hc⟩ : ∃ c cs, s ++ '(' :: (joinWith [','] args ++ [')']) = c :: cs :=
    List.exists_cons_of_ne_nil (List.append_ne_nil_of_right_ne_nil s (List.cons_ne_nil _ _))
  rw [hc] at hhead
  rw [callText_eq, hc, firstCall?]
  simp only [Bool.false_eq_true, if_false, hhead]

/-- **A call is read by its own name.** -/
theorem callArguments_callText_of_mem (hs : s ∈ names) (args : List Text) :
    callArguments names (callText s args) = callArguments [s] (callText s args) := by
  have hself : ∀ k ∈ [s], k.all isLetter = true :=
    List.forall_mem_singleton.mpr (hnames s hs)
  unfold callArguments
  rw [firstCall?_callText hnames hs, firstCall?_callText hself List.mem_cons_self]

end Names

end Bracket

end Stepwise
